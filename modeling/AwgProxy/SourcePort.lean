import AwgProxy.Lib.Machine
import AwgProxy.Session

/-!
# The Source Port of the Client

With the automatic source port the socket to the server is bound to the port the client sends
from. The c2s thread stores a new port and asks for a reconnect; the s2c thread reads the port
where it dials, and takes the request back when the dial is done. A port that is stored and
asked for between the two is not dialled, and nothing asks for it again.

* `srcPortMachine` — the stores of both threads, in any order.
* `BoundInv.step` — unless a request comes too late for the dial and too early to stand, the
  sockets are bound to the port in force, or a reconnect is due.
* `boundNow` — over a run without such requests no port change is lost.
* `lost_of_stale` — every such request is.
-/

namespace AwgProxy

/-- `cliaddr_port`. -/
def CliAddr.port : CliAddr → UInt16
  | .v4 _ port => port
  | .v6 _ port => port

/-- The family is `AF_INET6`. -/
def CliAddr.isV6 : CliAddr → Bool
  | .v4 _ _ => false
  | .v6 _ _ => true

/-- Where the c2s thread is with the address a batch came from. -/
inductive C2sAt
  /-- Past it. -/
  | idle
  /-- In `note_client_addr`, which found it new. -/
  | latch (a : CliAddr)
  /-- Behind `note_client_addr`. -/
  | compare (a : CliAddr)
  /-- `local_port` is stored. -/
  | request
  deriving DecidableEq

/-- Where the s2c thread is in `do_reconnect`. -/
inductive S2cAt
  /-- Outside. -/
  | idle
  /-- The sockets are closed. -/
  | closed
  /-- `dial_one` has connected a socket, bound to `fd`. -/
  | dialled (fd : UInt16)
  /-- `has_client` is cleared. -/
  | unlatched (fd : UInt16)
  /-- `reconnect_needed` is cleared. -/
  | cleared (fd : UInt16)
  deriving DecidableEq

/-- The socket dialled and not yet published. -/
def S2cAt.fd? : S2cAt → Option UInt16
  | .idle => none
  | .closed => none
  | .dialled fd => some fd
  | .unlatched fd => some fd
  | .cleared fd => some fd

/-- A socket is dialled, and `reconnect_needed` is yet to be cleared. -/
def S2cAt.clears : S2cAt → Bool
  | .dialled _ => true
  | .unlatched _ => true
  | _ => false

/-- `proxy_t` as far as the source port goes. A socket is the value of `local_port` it was
bound to, 0 when the kernel picked the port. -/
structure SrcPort where
  /-- `listen_family` is `AF_INET6`. -/
  listenV6 : Bool
  /-- `client_addr`. -/
  clientAddr : CliAddr
  /-- `has_client`. -/
  hasClient : Bool
  /-- `auto_src_port`. -/
  autoSrcPort : Bool
  /-- `local_port`. -/
  localPort : UInt16
  /-- `reconnect_needed`. -/
  reconnectNeeded : Bool
  /-- `remote_fd`, `none` for `-1`. -/
  remoteFd : Option UInt16
  /-- `remote_fd2`, the socket of the other family while the probe is on. -/
  remoteFd2 : Option UInt16
  /-- c2s: where it is. -/
  c2s : C2sAt
  /-- s2c: where it is. -/
  s2c : S2cAt
  deriving DecidableEq

/-- A step of a thread. -/
inductive SrcPortEvent
  /-- c2s: a batch from `a`; `note_client_addr` compares it with the client it knows. -/
  | recv (a : CliAddr)
  /-- c2s: `note_client_addr` stores the address and `has_client`. -/
  | latch
  /-- c2s: the port is compared with `local_port`, and stored when it is another. -/
  | compare
  /-- c2s: `reconnect_needed` is stored. -/
  | request
  /-- main, or a send that failed: `reconnect_needed` is stored. -/
  | requestOther
  /-- s2c: `do_reconnect` closes the sockets. -/
  | close
  /-- s2c: `dial_one` reads `local_port`, binds and connects. -/
  | dialOne
  /-- s2c: no address of the name can be dialled. -/
  | dialFails
  /-- s2c: `dial_one` on the other family. -/
  | dialAlt
  /-- s2c: `has_client` is cleared. -/
  | clearClient
  /-- s2c: `reconnect_needed` is cleared. -/
  | clearNeeded
  /-- s2c: `remote_fd` is stored. -/
  | publish
  /-- s2c: `he_finish` settles on one of two sockets. -/
  | heFinish (useAlt : Bool)
  deriving DecidableEq

/-- A step of a thread. -/
def srcPortStep (s : SrcPort) : SrcPortEvent → Option SrcPort
  | .recv a =>
      if s.c2s = .idle then
        if a.isV6 ≠ s.listenV6 then some s
        else if s.hasClient && cliaddrEq s.clientAddr a then some s
        else some { s with c2s := .latch a }
      else none
  | .latch =>
      match s.c2s with
      | .latch a => some { s with
          clientAddr := a
          hasClient := true
          c2s := if s.autoSrcPort then .compare a else .idle }
      | _ => none
  | .compare =>
      match s.c2s with
      | .compare a =>
          if s.localPort ≠ a.port then some { s with localPort := a.port, c2s := .request }
          else some { s with c2s := .idle }
      | _ => none
  | .request =>
      if s.c2s = .request then some { s with reconnectNeeded := true, c2s := .idle } else none
  | .requestOther => some { s with reconnectNeeded := true }
  | .close =>
      if s.s2c = .idle ∧ (s.remoteFd = none ∨ s.reconnectNeeded) then
        some { s with remoteFd := none, remoteFd2 := none, s2c := .closed }
      else none
  | .dialOne =>
      if s.s2c = .closed then some { s with s2c := .dialled s.localPort } else none
  | .dialFails => if s.s2c = .closed then some { s with s2c := .idle } else none
  | .dialAlt =>
      match s.s2c with
      | .dialled _ => some { s with remoteFd2 := some s.localPort }
      | _ => none
  | .clearClient =>
      match s.s2c with
      | .dialled fd => some { s with hasClient := false, s2c := .unlatched fd }
      | _ => none
  | .clearNeeded =>
      match s.s2c with
      | .unlatched fd => some { s with reconnectNeeded := false, s2c := .cleared fd }
      | _ => none
  | .publish =>
      match s.s2c with
      | .cleared fd => some { s with remoteFd := some fd, s2c := .idle }
      | _ => none
  | .heFinish useAlt =>
      if s.s2c = .idle ∧ s.remoteFd.isSome ∧ s.remoteFd2.isSome then
        some { s with
          remoteFd := if useAlt then s.remoteFd2 else s.remoteFd
          remoteFd2 := none }
      else none

/-- The stores of both threads, in any order. -/
def srcPortMachine : Machine SrcPort SrcPortEvent :=
  ⟨srcPortStep⟩

/-- Outside a reconnect, with none asked for, the socket is bound to the port in force. -/
def BoundNow (s : SrcPort) : Prop :=
  s.s2c = .idle → s.reconnectNeeded = false → ∀ fd ∈ s.remoteFd, fd = s.localPort

/-- The sockets of the proxy. -/
def SrcPort.sockets (s : SrcPort) : List UInt16 :=
  s.remoteFd.toList ++ s.remoteFd2.toList ++ s.s2c.fd?.toList

/-- c2s does not ask for a reconnect between the read of `local_port` in `dial_one` and the
clearing of `reconnect_needed` when a socket of that dial has the port from before. -/
def RequestsFresh (s : SrcPort) : SrcPortEvent → Prop
  | .request => s.s2c.clears = true → ∀ fd ∈ s.sockets, fd = s.localPort
  | _ => True

/-- The threads as they start: on a socket bound to the port in force. -/
structure SrcPort.Started (s : SrcPort) : Prop where
  idle : s.s2c = .idle
  bound : ∀ fd ∈ s.sockets, fd = s.localPort

/-- The sockets have the port in force, unless c2s is about to ask for a reconnect or one is
due. -/
structure BoundInv (s : SrcPort) : Prop where
  bound : s.c2s ≠ .request → (s.reconnectNeeded = false ∨ s.s2c.clears = true) →
    ∀ fd ∈ s.sockets, fd = s.localPort
  closed : s.s2c = .closed → s.sockets = []

theorem SrcPort.mem_sockets {s : SrcPort} {fd : UInt16} :
    fd ∈ s.sockets ↔ s.remoteFd = some fd ∨ s.remoteFd2 = some fd ∨ s.s2c.fd? = some fd := by
  simp [SrcPort.sockets]

/-- The invariant survives a step that binds no socket, and is due to no more than before. -/
theorem BoundInv.of_sockets_subset {s s' : SrcPort} (h : BoundInv s)
    (hport : s'.localPort = s.localPort) (hsub : ∀ fd ∈ s'.sockets, fd ∈ s.sockets)
    (hdue : s'.c2s ≠ .request → (s'.reconnectNeeded = false ∨ s'.s2c.clears = true) →
      s.c2s ≠ .request ∧ (s.reconnectNeeded = false ∨ s.s2c.clears = true))
    (hclosed : s'.s2c = .closed → s.sockets = []) : BoundInv s' := by
  refine ⟨fun hne hclears fd hfd => ?_, fun hat => ?_⟩
  · obtain ⟨hne, hclears⟩ := hdue hne hclears
    rw [hport]
    exact h.bound hne hclears fd (hsub fd hfd)
  · refine List.eq_nil_iff_forall_not_mem.mpr fun fd hfd => ?_
    have hmem := hsub fd hfd
    rw [hclosed hat] at hmem
    exact List.not_mem_nil hmem

/-- The invariant survives a step of a dial that is yet to clear `reconnect_needed`. -/
theorem BoundInv.of_clears {s s' : SrcPort} (h : BoundInv s) (hclears : s.s2c.clears = true)
    (hport : s'.localPort = s.localPort) (hc2s : s'.c2s = s.c2s) (hfds : s'.sockets = s.sockets)
    (hopen : s'.s2c ≠ .closed) : BoundInv s' := by
  refine h.of_sockets_subset hport (fun fd hfd => ?_) (fun hne _ => ?_)
    fun hclosed => absurd hclosed hopen
  · rwa [← hfds]
  · exact ⟨hc2s ▸ hne, Or.inr hclears⟩

/-- **The invariant survives every step that meets the condition.** -/
theorem BoundInv.step {s s' : SrcPort} {e : SrcPortEvent} (h : BoundInv s)
    (hg : RequestsFresh s e) (hs : srcPortStep s e = some s') : BoundInv s' := by
  cases e with
  | recv a =>
      rw [srcPortStep] at hs
      split_ifs at hs with hidle
      · obtain rfl := Option.some.inj hs
        exact h
      · obtain rfl := Option.some.inj hs
        exact h
      · obtain rfl := Option.some.inj hs
        exact ⟨fun _ hdue => h.bound (by rw [hidle]; nofun) hdue, h.closed⟩
  | latch =>
      rw [srcPortStep] at hs
      split at hs
      · rename_i a hat
        obtain rfl := Option.some.inj hs
        exact ⟨fun _ hdue => h.bound (by rw [hat]; nofun) hdue, h.closed⟩
      · contradiction
  | compare =>
      rw [srcPortStep] at hs
      split at hs
      · rename_i a hat
        split_ifs at hs with hnew
        · obtain rfl := Option.some.inj hs
          exact ⟨fun hne => absurd rfl hne, h.closed⟩
        · obtain rfl := Option.some.inj hs
          exact ⟨fun _ hdue => h.bound (by rw [hat]; nofun) hdue, h.closed⟩
      · contradiction
  | request =>
      obtain ⟨-, rfl⟩ := Option.ite_some_none_eq_some.mp hs
      refine ⟨fun _ hdue => ?_, h.closed⟩
      rcases hdue with hnone | hclears
      · exact absurd hnone nofun
      · exact hg hclears
  | requestOther =>
      obtain rfl := Option.some.inj hs
      refine ⟨fun hne hdue => ?_, h.closed⟩
      rcases hdue with hnone | hclears
      · exact absurd hnone nofun
      · exact h.bound hne (Or.inr hclears)
  | close =>
      obtain ⟨-, rfl⟩ := Option.ite_some_none_eq_some.mp hs
      exact ⟨fun _ _ => nofun, fun _ => rfl⟩
  | dialOne =>
      obtain ⟨hclosed, rfl⟩ := Option.ite_some_none_eq_some.mp hs
      refine ⟨fun _ _ fd hfd => ?_, nofun⟩
      have hnone : ∀ fd, fd ∉ s.sockets := List.eq_nil_iff_forall_not_mem.mp (h.closed hclosed)
      rcases SrcPort.mem_sockets.mp hfd with hfd | hfd | hfd
      · exact (hnone fd (SrcPort.mem_sockets.mpr (Or.inl hfd))).elim
      · exact (hnone fd (SrcPort.mem_sockets.mpr (Or.inr (Or.inl hfd)))).elim
      · exact (Option.some.inj hfd).symm
  | dialFails =>
      obtain ⟨hclosed, rfl⟩ := Option.ite_some_none_eq_some.mp hs
      refine h.of_sockets_subset rfl (fun fd hfd => ?_) (fun hne hdue => ⟨hne, ?_⟩) nofun
      · simpa [SrcPort.mem_sockets, hclosed, S2cAt.fd?] using hfd
      · exact hdue.imp_right nofun
  | dialAlt =>
      rw [srcPortStep] at hs
      split at hs
      · rename_i fd₀ hat
        obtain rfl := Option.some.inj hs
        refine ⟨fun hne _ fd hfd => ?_, fun hclosed => absurd (hat.symm.trans hclosed) nofun⟩
        have hbound := h.bound hne (Or.inr (by rw [hat]; rfl))
        rcases SrcPort.mem_sockets.mp hfd with hfd | hfd | hfd
        · exact hbound fd (SrcPort.mem_sockets.mpr (Or.inl hfd))
        · exact (Option.some.inj hfd).symm
        · exact hbound fd (SrcPort.mem_sockets.mpr (Or.inr (Or.inr hfd)))
      · contradiction
  | clearClient =>
      rw [srcPortStep] at hs
      split at hs
      · rename_i fd₀ hat
        obtain rfl := Option.some.inj hs
        refine h.of_clears (by rw [hat]; rfl) rfl rfl ?_ nofun
        rw [SrcPort.sockets, SrcPort.sockets, hat]
        rfl
      · contradiction
  | clearNeeded =>
      rw [srcPortStep] at hs
      split at hs
      · rename_i fd₀ hat
        obtain rfl := Option.some.inj hs
        refine h.of_clears (by rw [hat]; rfl) rfl rfl ?_ nofun
        rw [SrcPort.sockets, SrcPort.sockets, hat]
        rfl
      · contradiction
  | publish =>
      rw [srcPortStep] at hs
      split at hs
      · rename_i fd₀ hat
        obtain rfl := Option.some.inj hs
        refine h.of_sockets_subset rfl (fun fd hfd => ?_) (fun hne hdue => ⟨hne, ?_⟩) nofun
        · rcases SrcPort.mem_sockets.mp hfd with hfd | hfd | hfd
          · exact SrcPort.mem_sockets.mpr (Or.inr (Or.inr (by rw [hat]; exact hfd)))
          · exact SrcPort.mem_sockets.mpr (Or.inr (Or.inl hfd))
          · exact absurd hfd nofun
        · exact hdue.imp_right nofun
      · contradiction
  | heFinish useAlt =>
      obtain ⟨⟨hidle, -, -⟩, rfl⟩ := Option.ite_some_none_eq_some.mp hs
      refine h.of_sockets_subset rfl (fun fd hfd => ?_) (fun hne hdue => ⟨hne, hdue⟩)
        fun hclosed => absurd (hidle.symm.trans hclosed) nofun
      rcases SrcPort.mem_sockets.mp hfd with hfd | hfd | hfd
      · cases useAlt
        · exact SrcPort.mem_sockets.mpr (Or.inl hfd)
        · exact SrcPort.mem_sockets.mpr (Or.inr (Or.inl hfd))
      · exact absurd hfd nofun
      · exact SrcPort.mem_sockets.mpr (Or.inr (Or.inr hfd))

/-- **No source port change is lost**, in a run without a request of c2s between the read of
`local_port` by a dial that got the port from before and the clearing of `reconnect_needed`:
in every state reached, but between the two stores of c2s, the socket is bound to the port in
force when the s2c thread is outside a reconnect and none is asked for. -/
theorem boundNow {s t : SrcPort} {es : List SrcPortEvent} (h0 : s.Started)
    (hC : srcPortMachine.Meets RequestsFresh s es) (hrun : srcPortMachine.run s es = some t)
    (hc2s : t.c2s ≠ .request) : BoundNow t := by
  have hinit : BoundInv s :=
    ⟨fun _ _ => h0.bound, fun hclosed => absurd (h0.idle.symm.trans hclosed) nofun⟩
  have hinv : BoundInv t := Machine.guarded_induction (fun _ _ _ => BoundInv.step) hinit hC hrun
  intro _ hnone fd hfd
  exact hinv.bound hc2s (Or.inl hnone) fd (by simp [SrcPort.sockets, Option.mem_def.mp hfd])

/-- A dial that got the port from before ends on it, with no reconnect asked for, however many
requests came before the flag is cleared. -/
theorem lost_of_stale {s : SrcPort} {fd : UInt16} (hat : s.s2c = .dialled fd)
    (hstale : fd ≠ s.localPort) : ∃ t, srcPortMachine.run s [.clearClient, .clearNeeded, .publish] =
      some t ∧ t.c2s = s.c2s ∧ t.localPort = s.localPort ∧ ¬ BoundNow t := by
  refine ⟨{ s with
    hasClient := false
    reconnectNeeded := false
    remoteFd := some fd
    s2c := .idle }, ?_, rfl, rfl, fun hbound => hstale (hbound rfl rfl fd rfl)⟩
  simp [srcPortMachine, Machine.run_cons, srcPortStep, hat]

/-- A proxy with its first client to come. -/
def noClient : SrcPort where
  listenV6 := false
  clientAddr := .v4 0 0
  hasClient := false
  autoSrcPort := true
  localPort := 0
  reconnectNeeded := false
  remoteFd := some 0
  remoteFd2 := none
  c2s := .idle
  s2c := .idle

theorem started_noClient : noClient.Started :=
  ⟨rfl, by simp [noClient, SrcPort.sockets, S2cAt.fd?]⟩

/-- A client, and the reconnect to its port. -/
theorem boundNow_client : ∃ t, srcPortMachine.run noClient
    [.recv (.v4 1 1000), .latch, .compare, .request, .close, .dialOne, .clearClient, .clearNeeded,
      .publish] = some t ∧ BoundNow t ∧ t.remoteFd = some 1000 := by
  have hC : srcPortMachine.Meets RequestsFresh noClient
      [.recv (.v4 1 1000), .latch, .compare, .request, .close, .dialOne, .clearClient,
        .clearNeeded, .publish] := by
    refine .cons trivial rfl (.cons trivial rfl (.cons trivial rfl (.cons ?_ rfl (.cons trivial rfl
      (.cons trivial rfl (.cons trivial rfl (.cons trivial rfl (.cons trivial rfl
        (Machine.meets_nil _ _)))))))))
    exact nofun
  exact ⟨_, rfl, boundNow started_noClient hC rfl nofun, rfl⟩

/-- The client moves to another port while the dial for the first one is under way, and goes on
from there. -/
def movedWhileDialling : List SrcPortEvent :=
  [.recv (.v4 1 1000), .latch, .compare, .request, .close, .dialOne, .recv (.v4 1 2000), .latch,
    .compare, .request, .clearClient, .clearNeeded, .publish, .recv (.v4 1 2000), .latch, .compare,
    .recv (.v4 1 2000)]

/-- Both threads come to rest on the port from before. -/
theorem not_boundNow : noClient.Started ∧ ∃ t,
    srcPortMachine.run noClient movedWhileDialling = some t ∧ t.c2s = .idle ∧ t.s2c = .idle ∧
      t.reconnectNeeded = false ∧ t.remoteFd = some 1000 ∧ t.localPort = 2000 ∧ ¬ BoundNow t :=
  ⟨started_noClient, _, rfl, rfl, rfl, rfl, rfl, rfl,
    fun hbound => absurd (hbound rfl rfl 1000 rfl) (by decide)⟩

end AwgProxy
