import AwgProxy.Lib.Machine
import AwgProxy.Fallback
import AwgProxy.Rotation

/-!
# The Dead Verdict and the Dial

The main loop raises `remote_dead` when the watchdog declares the silence a fault; the dial
of the next reconnect takes it, drops the port to keep and moves on to the next address of
the name. The flag says nothing about which connection it was raised on, and a dial that has
taken it may fail. The reconnect is close, take, dial and publish, each a step of the s2c
thread that a tick or a request can come before.

* `reconnectMachine` — the ticks, the requests and the steps of `do_reconnect`.
* `spentOnce` — when no connection is published under a verdict that stands, nothing arrives
  under one, and no dial that took one fails, every verdict is spent on its connection.
-/

namespace AwgProxy

/-! ### The address of a dial -/

/-- An address record of the name. -/
structure RecAddr where
  v6 : Bool
  addr : Bytes
  deriving DecidableEq

/-- The locals of `pick_rec`. -/
structure PickRec where
  first : Option RecAddr
  hit : Option RecAddr
  after : Option RecAddr

/-- The loop of `pick_rec` on one record. -/
def pickRecStep (v6 : Bool) (cur : Option RecAddr) (r : PickRec) (a : RecAddr) : PickRec :=
  if a.v6 ≠ v6 then r
  else
    { first := if r.first.isNone then some a else r.first
      after := if r.hit.isSome && r.after.isNone then some a else r.after
      hit := if r.hit.isNone && cur = some a then some a else r.hit }

/-- `pick_rec`: the address in use while it is listed, the one after it when that went
silent, else the first. -/
def pickRec (v6 : Bool) (recs : List RecAddr) (cur : Option RecAddr) (next : Bool) :
    Option RecAddr :=
  let r := recs.foldl (pickRecStep v6 cur) ⟨none, none, none⟩
  if r.hit.isNone then r.first
  else if !next then r.hit
  else if r.after.isSome then r.after
  else r.first

/-- `dial_remote` behind the verdict: the address it connects to, among the records `recs`
the name resolves to, `none` when it fails. -/
def dialAddr (recs : List RecAddr) (cur : Option RecAddr)
    (next prefer6 okPrimary okAlt : Bool) : Option RecAddr :=
  let v4 := pickRec false recs cur next
  let v6 := pickRec true recs cur next
  let primary := if prefer6 && v6.isSome then v6 else if v4.isSome then v4 else v6
  let alt := if prefer6 && v6.isSome then v4 else if v4.isSome then v6 else none
  if okPrimary then primary else if okAlt then alt else none

/-! ### The threads -/

/-- Where the s2c thread is in `do_reconnect`. -/
inductive DialAt
  /-- Outside. -/
  | idle
  /-- The socket is closed. -/
  | closed
  /-- The verdict, if there was one, is taken. -/
  | dialling (dead : Bool)
  deriving DecidableEq

/-- `proxy_t` as far as a reconnect and the watchdog read and write it. A connection is named
by its number. -/
structure Reconnect where
  /-- `remote_fd`, the connection it belongs to; `none` for `-1`. -/
  remoteFd : Option ℕ
  /-- The connection published last. -/
  lastConn : ℕ
  /-- `reconnect_needed`. -/
  reconnectNeeded : Bool
  /-- `remote_dead`. -/
  remoteDead : Bool
  /-- `port_keep`. -/
  portKeep : Bool
  /-- `remote_port`. -/
  remotePort : Port
  /-- `remote`, without its port. -/
  remote : Option RecAddr
  /-- The server is Cloudflare WARP. -/
  warp : Bool
  /-- `last_active`. -/
  lastActive : Bool
  /-- `last_remote_rx`. -/
  lastRemoteRx : Bool
  /-- `client_init`. -/
  clientInit : Bool
  /-- `fe_remote_pkt`. -/
  feRemotePkt : Bool
  /-- Something waits on the socket. -/
  queued : Bool
  /-- s2c: where it is. -/
  dial : DialAt
  /-- main: its counters. -/
  monitor : Monitor
  /-- The connection published last when `remote_dead` was raised last. -/
  raisedOn : ℕ
  /-- Something has arrived since. -/
  spoke : Bool
  /-- A verdict has been taken since the last connection was published. -/
  owed : Bool

/-- A step of a thread, or of the kernel. -/
inductive ReconnectEvent
  /-- A datagram arrives. -/
  | arrive
  /-- s2c: it is read. -/
  | read
  /-- c2s: a batch of the client, with an init of a handshake or not. -/
  | client (init : Bool)
  /-- main: a tick. -/
  | tick
  /-- A send or read error, a change of DNS or of the source port. -/
  | request
  /-- s2c: `do_reconnect` closes the socket. -/
  | close
  /-- s2c: `dial_remote` takes the verdict, and the port `draw` unless the port is kept. -/
  | take (draw : Port)
  /-- s2c: `dial_remote` ends; a socket is published or not. -/
  | dialled (recs : List RecAddr) (prefer6 okPrimary okAlt : Bool)
  deriving DecidableEq

/-- A tick of the main loop. -/
def Reconnect.tick (c : MonitorConfig) (s : Reconnect) : Reconnect :=
  let r := monitorTick c s.monitor ⟨⟨s.lastRemoteRx, s.clientInit⟩, s.lastActive⟩
  let dead := r.raised.remoteDead
  { s with
    lastActive := false
    lastRemoteRx := false
    clientInit := false
    monitor := r.monitor
    remoteDead := s.remoteDead || dead
    reconnectNeeded := s.reconnectNeeded || (s.remoteFd.isSome && (r.switched.isSome || dead))
    raisedOn := if dead then s.lastConn else s.raisedOn
    spoke := if dead then false else s.spoke }

/-- `do_reconnect` behind a dial that connected to `a`. -/
def Reconnect.publish (s : Reconnect) (a : RecAddr) : Reconnect :=
  { s with
    remote := some a
    lastActive := true
    lastRemoteRx := false
    clientInit := false
    reconnectNeeded := false
    feRemotePkt := false
    remoteFd := some (s.lastConn + 1)
    lastConn := s.lastConn + 1
    owed := false }

/-- A step of a thread, or of the kernel. -/
def reconnectStep (c : MonitorConfig) (s : Reconnect) : ReconnectEvent → Option Reconnect
  | .arrive => if s.remoteFd.isSome then some { s with queued := true, spoke := true } else none
  | .read =>
      if s.dial = .idle ∧ s.remoteFd.isSome ∧ s.queued then
        some { s with
          queued := false
          lastActive := true
          lastRemoteRx := true
          feRemotePkt := true
          portKeep := s.portKeep || (s.warp && !s.feRemotePkt) }
      else none
  | .client init => some { s with lastActive := true, clientInit := s.clientInit || init }
  | .tick => some (s.tick c)
  | .request => some { s with reconnectNeeded := true }
  | .close =>
      if s.dial = .idle ∧ (s.remoteFd = none ∨ s.reconnectNeeded) then
        some { s with remoteFd := none, queued := false, dial := .closed }
      else none
  | .take draw =>
      if s.dial = .closed then
        let keep := s.portKeep && !s.remoteDead
        some { s with
          remoteDead := false
          portKeep := keep
          remotePort := if keep then s.remotePort else draw
          dial := .dialling s.remoteDead
          owed := s.owed || s.remoteDead }
      else none
  | .dialled recs prefer6 okPrimary okAlt =>
      match s.dial with
      | .dialling dead =>
          let s' := { s with dial := .idle }
          some (match dialAddr recs s.remote dead prefer6 okPrimary okAlt with
            | some a => s'.publish a
            | none => s')
      | _ => none

/-- The ticks, the requests and the steps of `do_reconnect`. -/
def reconnectMachine (c : MonitorConfig) : Machine Reconnect ReconnectEvent :=
  ⟨reconnectStep c⟩

/-- A verdict that a dial takes was raised on the connection that the dial replaces, and
nothing has arrived on it since. -/
def TakenOnItsOwn (c : MonitorConfig) (s : Reconnect) : Prop :=
  ∀ draw s', reconnectStep c s (.take draw) = some s' → s.remoteDead = true →
    s.raisedOn = s.lastConn ∧ s.spoke = false

/-- A verdict that was taken reaches the next dial that succeeds: the port is not kept, and
the address is the one behind the silent one. -/
def ReachesNextDial (c : MonitorConfig) (s : Reconnect) : Prop :=
  ∀ recs prefer6 okPrimary okAlt s',
    reconnectStep c s (.dialled recs prefer6 okPrimary okAlt) = some s' →
    s'.lastConn ≠ s.lastConn → s.owed = true →
    s'.portKeep = false ∧ s'.remote = dialAddr recs s.remote true prefer6 okPrimary okAlt

/-- A dead verdict is spent on the connection it was passed on. -/
structure SpentOnce (c : MonitorConfig) (s : Reconnect) : Prop where
  taken : TakenOnItsOwn c s
  reaches : ReachesNextDial c s

/-- Nothing arrives under a verdict that stands, none stands when a connection is published,
and no dial that has taken one fails. -/
def VerdictsMeet (s : Reconnect) : ReconnectEvent → Prop
  | .arrive => s.remoteDead = false
  | .dialled recs prefer6 okPrimary okAlt => ∀ dead, s.dial = .dialling dead →
      if (dialAddr recs s.remote dead prefer6 okPrimary okAlt).isSome then s.remoteDead = false
      else dead = false
  | _ => True

/-- The threads as they start on the first connection. -/
structure Reconnect.Started (s : Reconnect) : Prop where
  remoteDead : s.remoteDead = false
  owed : s.owed = false

/-- A verdict that stands is about the connection published last, which has been silent
since; one that was taken is with the dial that took it. -/
structure VerdictInv (s : Reconnect) : Prop where
  stands : s.remoteDead = true → s.raisedOn = s.lastConn ∧ s.spoke = false
  owed : s.owed = true → s.portKeep = false ∧ s.dial = .dialling true

/-- A tick raises a verdict on the connection published last. -/
theorem VerdictInv.tick {s : Reconnect} (h : VerdictInv s) (c : MonitorConfig) :
    VerdictInv (s.tick c) := by
  refine ⟨fun hdead => ?_, h.owed⟩
  rw [Reconnect.tick] at hdead ⊢
  dsimp only at hdead ⊢
  generalize
    (monitorTick c s.monitor ⟨⟨s.lastRemoteRx, s.clientInit⟩, s.lastActive⟩).raised.remoteDead =
      dead at hdead ⊢
  cases dead with
  | true => exact ⟨rfl, rfl⟩
  | false =>
      rw [Bool.or_false] at hdead
      exact h.stands hdead

/-- Every step that meets the condition keeps the verdicts. -/
theorem VerdictInv.step {c : MonitorConfig} {s s' : Reconnect} {e : ReconnectEvent}
    (h : VerdictInv s) (hg : VerdictsMeet s e) (hs : reconnectStep c s e = some s') :
    VerdictInv s' := by
  cases e with
  | arrive =>
      obtain ⟨-, rfl⟩ := Option.ite_some_none_eq_some.mp hs
      exact ⟨fun hdead => absurd (hdead.symm.trans hg) nofun, h.owed⟩
  | read =>
      obtain ⟨⟨hidle, -⟩, rfl⟩ := Option.ite_some_none_eq_some.mp hs
      refine ⟨h.stands, fun howed => ?_⟩
      exact absurd (hidle.symm.trans (h.owed howed).2) nofun
  | client init =>
      obtain rfl := Option.some.inj hs
      exact ⟨h.stands, h.owed⟩
  | tick =>
      obtain rfl := Option.some.inj hs
      exact h.tick c
  | request =>
      obtain rfl := Option.some.inj hs
      exact ⟨h.stands, h.owed⟩
  | close =>
      obtain ⟨⟨hidle, -⟩, rfl⟩ := Option.ite_some_none_eq_some.mp hs
      refine ⟨h.stands, fun howed => ?_⟩
      exact absurd (hidle.symm.trans (h.owed howed).2) nofun
  | take draw =>
      obtain ⟨hclosed, rfl⟩ := Option.ite_some_none_eq_some.mp hs
      refine ⟨nofun, fun howed => ?_⟩
      dsimp only at howed ⊢
      rcases (Bool.or_eq_true ..).mp howed with howed | hdead
      · exact absurd (hclosed.symm.trans (h.owed howed).2) nofun
      · rw [hdead]
        exact ⟨Bool.and_false _, rfl⟩
  | dialled recs prefer6 okPrimary okAlt =>
      rw [reconnectStep] at hs
      split at hs
      · rename_i dead hdial
        have hmeet := hg dead hdial
        obtain rfl := Option.some.inj hs
        cases ha : dialAddr recs s.remote dead prefer6 okPrimary okAlt with
        | some a =>
            rw [ha] at hmeet
            have hstands : s.remoteDead = false := hmeet
            exact ⟨fun hdead => absurd (hdead.symm.trans hstands) nofun, nofun⟩
        | none =>
            rw [ha] at hmeet
            have hdead : dead = false := hmeet
            refine ⟨h.stands, fun howed => ?_⟩
            -- the dial that took the verdict does not fail
            have htook := hdial.symm.trans (h.owed howed).2
            rw [hdead] at htook
            exact absurd htook nofun
      · contradiction

/-- Verdicts that are kept are spent on their connections. -/
theorem VerdictInv.spent {s : Reconnect} (h : VerdictInv s) (c : MonitorConfig) :
    SpentOnce c s := by
  refine ⟨fun draw s' _ hdead => h.stands hdead,
    fun recs prefer6 okPrimary okAlt s' hs hne howed => ?_⟩
  obtain ⟨hkeep, hdial⟩ := h.owed howed
  rw [reconnectStep, hdial] at hs
  obtain rfl := Option.some.inj hs
  cases ha : dialAddr recs s.remote true prefer6 okPrimary okAlt with
  | some a => exact ⟨hkeep, rfl⟩
  | none =>
      rw [ha] at hne
      exact absurd rfl hne

/-- **A dead verdict is spent exactly once, on the connection it was passed on**, in every
state reached by a run in which nothing arrives under a verdict that stands, no connection is
published under one, and no dial that took one fails. -/
theorem spentOnce {c : MonitorConfig} {s t : Reconnect} {es : List ReconnectEvent}
    (h0 : s.Started) (hC : (reconnectMachine c).Meets VerdictsMeet s es)
    (hrun : (reconnectMachine c).run s es = some t) : SpentOnce c t := by
  have hinit : VerdictInv s := by
    refine ⟨fun hdead => ?_, fun howed => ?_⟩
    · exact absurd (hdead.symm.trans h0.remoteDead) nofun
    · exact absurd (howed.symm.trans h0.owed) nofun
  have hstep : ∀ q e q', VerdictInv q → VerdictsMeet q e →
      (reconnectMachine c).step q e = some q' → VerdictInv q' :=
    fun q e q' hq hg hs => hq.step hg hs
  exact (Machine.guarded_induction hstep hinit hC hrun).spent c

/-- A timeout of one tick, a single port and no profile chain. -/
def oneTick : MonitorConfig where
  timeout := 5
  fbAfter := 0
  profileCount := 1
  mode := .normal
  ports := 1

/-- Two records of a name. -/
def firstAddr : RecAddr := ⟨false, [192, 0, 2, 1]⟩

def secondAddr : RecAddr := ⟨false, [192, 0, 2, 2]⟩

/-- A connection to the first of them. -/
def connected : Reconnect where
  remoteFd := some 0
  lastConn := 0
  reconnectNeeded := false
  remoteDead := false
  portKeep := false
  remotePort := 4500
  remote := some firstAddr
  warp := false
  lastActive := false
  lastRemoteRx := false
  clientInit := false
  feRemotePkt := false
  queued := false
  dial := .idle
  monitor := .start
  raisedOn := 0
  spoke := false
  owed := false

theorem started_connected : connected.Started :=
  ⟨rfl, rfl⟩

/-- A dial of the second record after a silence, and a silence there with its verdict. -/
def silentTwice : List ReconnectEvent :=
  [.client true, .tick, .close, .take 4501, .dialled [firstAddr, secondAddr] false true true,
    .client true, .tick, .close]

/-- Nothing in it breaks the condition. -/
theorem meets_silentTwice :
    (reconnectMachine oneTick).Meets VerdictsMeet connected (silentTwice ++ [.take 4502]) := by
  refine .cons trivial rfl (.cons trivial rfl (.cons trivial rfl (.cons trivial rfl
    (.cons ?_ rfl (.cons trivial rfl (.cons trivial rfl (.cons trivial rfl
      (.cons trivial rfl (Machine.meets_nil _ _)))))))))
  intro dead hdial
  obtain rfl := DialAt.dialling.inj hdial
  decide

/-- The verdict that stands is taken on its own connection, and the one that was taken is owed to
the next dial. -/
theorem spentOnce_silent :
    (∃ t, (reconnectMachine oneTick).run connected silentTwice = some t ∧ t.remoteDead = true ∧
      t.remote = some secondAddr ∧ SpentOnce oneTick t) ∧
    ∃ t, (reconnectMachine oneTick).run connected (silentTwice ++ [.take 4502]) = some t ∧
      t.dial = .dialling true ∧ t.owed = true ∧ SpentOnce oneTick t :=
  ⟨⟨_, rfl, rfl, rfl, spentOnce started_connected meets_silentTwice.of_append rfl⟩,
    ⟨_, rfl, rfl, rfl, spentOnce started_connected meets_silentTwice rfl⟩⟩

/-- A verdict is raised while a dial is under way for another cause, the connection comes up,
and a later request makes a dial take the verdict. -/
def staleVerdictEvents : List ReconnectEvent :=
  [.client true, .request, .close, .take 4500, .tick, .dialled [firstAddr] false true true,
    .request, .close]

/-- A dial takes the verdict and fails to resolve; the next one succeeds. -/
def lostVerdictEvents : List ReconnectEvent :=
  [.client true, .tick, .close, .take 4500, .dialled [] false true true, .close, .take 4500]

/-- A verdict is taken for a connection it was not raised on, and a verdict that was taken
does not keep the next dial that succeeds from the silent address. -/
theorem not_spentOnce : connected.Started ∧
    (∃ t, (reconnectMachine oneTick).run connected staleVerdictEvents = some t ∧
      ¬ TakenOnItsOwn oneTick t ∧ t.remoteDead = true ∧ t.raisedOn = 0 ∧ t.lastConn = 1) ∧
    ∃ t, (reconnectMachine oneTick).run connected lostVerdictEvents = some t ∧
      ¬ ReachesNextDial oneTick t ∧ t.remote = some firstAddr ∧
      dialAddr [firstAddr, secondAddr] t.remote true false true true = some secondAddr := by
  refine ⟨started_connected, ⟨_, rfl, fun htaken => ?_, rfl, rfl, rfl⟩,
    ⟨_, rfl, fun hreaches => ?_, rfl, by decide⟩⟩
  · exact absurd (htaken 4500 _ rfl rfl).1 (by decide)
  · have hnext := (hreaches [firstAddr, secondAddr] false true true _ rfl (by decide) rfl).2
    exact absurd hnext (by decide)

end AwgProxy
