import AwgProxy.Lib.Machine
import AwgProxy.Resolve

/-!
# The DNS Watch

The main loop looks a host name up every so often, and reconnects when the address in use has
gone from the records on two checks in a row. A check takes the address under the lock of the
reconnects and asks the resolver without it, and the count of misses is one of the loop's own:
a reconnect for another reason leaves it alone, and so does a look-up that fails.

* `dnsWatch_justified` — the watch reconnects after two misses of the address in use, in every
  run in which the address stays while a miss is counted or a check is under way, and no
  look-up fails while a miss is counted.
* `dnsWatch_not_justified` — three runs in which one of these does not hold, and the watch
  reconnects all the same.
-/

namespace AwgProxy

/-! ### The code -/

/-- `resolve_addr_check`, on what the resolver answers. -/
def resolveAddrCheck (gai : Option (List SockAddr)) (cur : SockAddr) : ℤ :=
  match gai with
  | none => -1
  | some sas => if sas.any (saAddrEq · cur) then 0 else 1

/-- What a check of result `r` makes of `dns_miss`, and whether it reconnects. -/
def dnsVerdict (r : ℤ) (dnsMiss : ℕ) : ℕ × Bool :=
  if r = 1 then if dnsMiss + 1 ≥ 2 then (0, true) else (dnsMiss + 1, false)
  else if r = 0 then (0, false)
  else (dnsMiss, false)

/-- `proxy_t` and the loop of `proxy_run`, as far as the watch reads and writes them. -/
structure DnsWatch where
  /-- `remote.sa`. -/
  remote : SockAddr
  /-- `remote_fd` is a socket. -/
  remoteUp : Bool
  /-- `reconnect_needed`. -/
  reconnectNeeded : Bool
  /-- `remote_mu` is held by another thread. -/
  remoteMu : Bool
  /-- `dns_tick`. -/
  dnsTick : ℕ
  /-- `dns_miss`. -/
  dnsMiss : ℕ
  /-- `cur`, of a check under way. -/
  cur : Option SockAddr

/-- A step of the main loop, or of another thread. -/
inductive DnsEvent
  /-- main: the timer fires. -/
  | timer
  /-- main: the resolver answers, or fails. -/
  | answer (gai : Option (List SockAddr))
  /-- Another cause asks for a reconnect, or one is done. -/
  | reconnectNeeded (needed : Bool)
  /-- A reconnect closes the socket, or has opened one. -/
  | remoteFd (up : Bool)
  /-- Another thread takes the lock. -/
  | lock
  /-- It rewrites `remote`. -/
  | publish (sa : SockAddr)
  /-- It gives the lock back. -/
  | unlock

/-- The timer has fired: of `checks` ticks (`dns_checks`, 0 for no watch) the last one makes a
check due, which starts with the address in use, unless the lock is taken. -/
def DnsWatch.timer (checks : ℕ) (s : DnsWatch) : DnsWatch :=
  if checks > 0 then
    if s.dnsTick + 1 ≥ checks then
      if s.remoteUp && !s.reconnectNeeded && !s.remoteMu then
        { s with dnsTick := 0, cur := some s.remote }
      else { s with dnsTick := 0 }
    else { s with dnsTick := s.dnsTick + 1 }
  else s

/-- The check of `cur` is over. -/
def DnsWatch.answer (gai : Option (List SockAddr)) (cur : SockAddr) (s : DnsWatch) : DnsWatch :=
  let (dnsMiss, reconnect) := dnsVerdict (resolveAddrCheck gai cur) s.dnsMiss
  { s with cur := none, dnsMiss := dnsMiss, reconnectNeeded := s.reconnectNeeded || reconnect }

/-- A step. -/
def dnsStep (checks : ℕ) (s : DnsWatch) : DnsEvent → Option DnsWatch
  | .timer => if s.cur.isNone then some (s.timer checks) else none
  | .answer gai => s.cur.map fun cur => s.answer gai cur
  | .reconnectNeeded needed => some { s with reconnectNeeded := needed }
  | .remoteFd up => some { s with remoteUp := up }
  | .lock => if s.remoteMu then none else some { s with remoteMu := true }
  | .publish sa => if s.remoteMu then some { s with remote := sa } else none
  | .unlock => if s.remoteMu then some { s with remoteMu := false } else none

/-- The watch, under every schedule. -/
def dnsMachine (checks : ℕ) : Machine DnsWatch DnsEvent where
  step := dnsStep checks

/-! ### What has been seen -/

/-- A check that ran. -/
structure DnsCheck where
  cur : SockAddr
  result : ℤ

/-- A reconnect of the watch: the address in use, and the checks so far, the last one first. -/
structure DnsTrigger where
  remote : SockAddr
  checks : List DnsCheck

/-- The checks that ran and the reconnects. -/
structure DnsLog where
  checks : List DnsCheck
  triggers : List DnsTrigger

/-- What a step adds. -/
def DnsLog.next (s : DnsWatch) (e : DnsEvent) (_ : DnsWatch) (g : DnsLog) : DnsLog :=
  match e, s.cur with
  | .answer gai, some cur =>
      let r := resolveAddrCheck gai cur
      let checks := ⟨cur, r⟩ :: g.checks
      ⟨checks, if (dnsVerdict r s.dnsMiss).2 then ⟨s.remote, checks⟩ :: g.triggers
        else g.triggers⟩
  | _, _ => g

/-- A miss of the address `sa`. -/
def DnsCheck.Misses (sa : SockAddr) (c : DnsCheck) : Prop := c.result = 1 ∧ c.cur.ip = sa.ip

/-- The last two checks were misses of the address in use. -/
def DnsTrigger.Justified (t : DnsTrigger) : Prop :=
  ∃ c c' rest, t.checks = c :: c' :: rest ∧ c.Misses t.remote ∧ c'.Misses t.remote

/-- The address stays while a miss is counted or a check is under way, and no look-up fails
while a miss is counted. -/
def DnsSteady (s : DnsWatch) : DnsEvent → Prop
  | .publish sa => sa.ip = s.remote.ip ∨ s.dnsMiss = 0 ∧ s.cur = none
  | .answer gai => s.dnsMiss = 0 ∨ gai ≠ none
  | _ => True

/-- The loop as it starts. -/
structure DnsWatch.Started (s : DnsWatch) : Prop where
  dnsMiss : s.dnsMiss = 0
  cur : s.cur = none

/-! ### A step of the watch -/

/-- What is counted is the last check, a miss of the address in use. -/
structure DnsInv (s : DnsWatch) (g : DnsLog) : Prop where
  le : s.dnsMiss ≤ 1
  cur : ∀ sa, s.cur = some sa → sa.ip = s.remote.ip
  missed : s.dnsMiss = 1 → ∃ c rest, g.checks = c :: rest ∧ c.Misses s.remote
  justified : ∀ t ∈ g.triggers, t.Justified

/-- A look-up without an answer has no result, and no other has none. -/
theorem resolveAddrCheck_eq (gai : Option (List SockAddr)) (cur : SockAddr) :
    resolveAddrCheck gai cur = -1 ∧ gai = none ∨
      gai ≠ none ∧ (resolveAddrCheck gai cur = 0 ∨ resolveAddrCheck gai cur = 1) := by
  cases gai with
  | none => exact Or.inl ⟨rfl, rfl⟩
  | some sas =>
      refine Or.inr ⟨nofun, ?_⟩
      rw [resolveAddrCheck]
      split
      · exact Or.inl rfl
      · exact Or.inr rfl

/-- The timer takes the address in use, or nothing. -/
theorem DnsWatch.timer_eq (checks : ℕ) (s : DnsWatch) :
    ∃ dnsTick cur, s.timer checks = { s with dnsTick := dnsTick, cur := cur } ∧
      (cur = s.cur ∨ cur = some s.remote) := by
  rw [DnsWatch.timer]
  split_ifs
  · exact ⟨0, some s.remote, rfl, Or.inr rfl⟩
  · exact ⟨0, s.cur, rfl, Or.inl rfl⟩
  · exact ⟨s.dnsTick + 1, s.cur, rfl, Or.inl rfl⟩
  · exact ⟨s.dnsTick, s.cur, rfl, Or.inl rfl⟩

/-- **An answer** counts the miss of the address in use, forgets it, or acts on the second. -/
theorem DnsInv.answer {s : DnsWatch} {g : DnsLog} (h : DnsInv s g)
    {gai : Option (List SockAddr)} {cur : SockAddr} (hcur : s.cur = some cur)
    (hg : DnsSteady s (.answer gai)) :
    DnsInv (s.answer gai cur) (g.next s (.answer gai) (s.answer gai cur)) := by
  have hip := h.cur cur hcur
  have hle := h.le
  have hlog : g.next s (.answer gai) (s.answer gai cur) =
      ⟨⟨cur, resolveAddrCheck gai cur⟩ :: g.checks,
        if (dnsVerdict (resolveAddrCheck gai cur) s.dnsMiss).2 then
          ⟨s.remote, ⟨cur, resolveAddrCheck gai cur⟩ :: g.checks⟩ :: g.triggers
        else g.triggers⟩ := by
    simp only [DnsLog.next, hcur]
  rw [hlog, DnsWatch.answer]
  rcases resolveAddrCheck_eq gai cur with ⟨hr, hnone⟩ | ⟨-, hr | hr⟩
  · -- a look-up that fails while nothing is counted
    have hzero : s.dnsMiss = 0 := hg.resolve_right fun hsome => hsome hnone
    rw [hr, hzero]
    exact ⟨Nat.zero_le 1, nofun, nofun, h.justified⟩
  · rw [hr]
    exact ⟨Nat.zero_le 1, nofun, nofun, h.justified⟩
  · have hmiss : DnsCheck.Misses s.remote ⟨cur, 1⟩ := ⟨rfl, hip⟩
    rw [hr]
    rcases Nat.le_one_iff_eq_zero_or_eq_one.mp hle with hzero | hone
    · rw [hzero]
      exact ⟨le_rfl, nofun, fun _ => ⟨_, _, rfl, hmiss⟩, h.justified⟩
    · obtain ⟨c, rest, hchecks, hc⟩ := h.missed hone
      rw [hone]
      refine ⟨Nat.zero_le 1, nofun, nofun, fun t ht => ?_⟩
      rcases List.mem_cons.mp ht with rfl | ht
      · exact ⟨_, c, rest, congrArg _ hchecks, hmiss, hc⟩
      · exact h.justified t ht

/-- **The invariant survives every step that meets the condition.** -/
theorem DnsInv.step {checks : ℕ} {s s' : DnsWatch} {g : DnsLog} {e : DnsEvent} (h : DnsInv s g)
    (hg : DnsSteady s e) (hs : dnsStep checks s e = some s') : DnsInv s' (g.next s e s') := by
  cases e with
  | timer =>
      obtain ⟨-, rfl⟩ := Option.ite_some_none_eq_some.mp hs
      obtain ⟨dnsTick, cur, htimer, hcur⟩ := s.timer_eq checks
      rw [htimer]
      refine ⟨h.le, fun sa hsa => ?_, h.missed, h.justified⟩
      change cur = some sa at hsa
      rcases hcur with rfl | rfl
      · exact h.cur sa hsa
      · obtain rfl := Option.some.inj hsa
        rfl
  | answer gai =>
      obtain ⟨cur, hcur, rfl⟩ := Option.map_eq_some_iff.mp hs
      exact h.answer hcur hg
  | reconnectNeeded needed =>
      obtain rfl := Option.some.inj hs
      exact ⟨h.le, h.cur, h.missed, h.justified⟩
  | remoteFd up =>
      obtain rfl := Option.some.inj hs
      exact ⟨h.le, h.cur, h.missed, h.justified⟩
  | lock =>
      obtain ⟨-, hs⟩ := Option.ite_none_left_eq_some.mp hs
      obtain rfl := Option.some.inj hs
      exact ⟨h.le, h.cur, h.missed, h.justified⟩
  | publish sa =>
      obtain ⟨-, rfl⟩ := Option.ite_some_none_eq_some.mp hs
      rcases hg with hsame | ⟨hzero, hnone⟩
      · refine ⟨h.le, fun sa' hsa => (h.cur sa' hsa).trans hsame.symm, fun hone => ?_, h.justified⟩
        obtain ⟨c, rest, hchecks, hc⟩ := h.missed hone
        exact ⟨c, rest, hchecks, hc.1, hc.2.trans hsame.symm⟩
      · refine ⟨h.le, fun sa' hsa => ?_, fun hone => ?_, h.justified⟩
        · exact absurd (hnone.symm.trans hsa) nofun
        · exact absurd (hzero.symm.trans hone) nofun
  | unlock =>
      obtain ⟨-, rfl⟩ := Option.ite_some_none_eq_some.mp hs
      exact ⟨h.le, h.cur, h.missed, h.justified⟩

/-! ### Runs of the watch -/

/-- **The watch reconnects after two misses** of the address in use, in every run that keeps
it while it is being checked or has been missed. -/
theorem dnsWatch_justified {checks : ℕ} {s s' : DnsWatch} {g : DnsLog} {es : List DnsEvent}
    (h0 : s.Started) (hC : (dnsMachine checks).Meets DnsSteady s es)
    (hrun : ((dnsMachine checks).ghost DnsLog.next).run (s, ⟨[], []⟩) es = some (s', g)) :
    ∀ t ∈ g.triggers, t.Justified := by
  have hstart : DnsInv s ⟨[], []⟩ :=
    ⟨h0.dnsMiss.trans_le (Nat.zero_le 1), fun sa hsa => absurd (h0.cur.symm.trans hsa) nofun,
      fun hone => absurd (h0.dnsMiss.symm.trans hone) nofun, nofun⟩
  have hstep : ∀ (p : DnsWatch × DnsLog) e p', DnsInv p.1 p.2 → DnsSteady p.1 e →
      ((dnsMachine checks).ghost DnsLog.next).step p e = some p' → DnsInv p'.1 p'.2 := by
    intro p e p' hi hc hs
    obtain ⟨hstep, hlog⟩ := Machine.step_ghost_eq_some.mp hs
    rw [hlog]
    exact hi.step hc hstep
  exact (Machine.guarded_induction hstep hstart (hC.ghost DnsLog.next ⟨[], []⟩) hrun).justified

/-- Two servers behind one name. -/
def serverAddr (n : UInt8) : SockAddr := .inet 51820 (#v[192, 0, 2].push n)

/-- Connected to the first server. -/
def dnsConnected : DnsWatch := ⟨serverAddr 1, true, false, false, 0, 0, none⟩

/-- The first server has gone from the records, which is found out twice. -/
def serverGone : List DnsEvent :=
  [.timer, .answer (some [serverAddr 2]), .timer, .answer (some [serverAddr 2])]

/-- The watch reconnects on the second miss. -/
theorem dnsWatch_justified_gone :
    ((dnsMachine 1).ghost DnsLog.next).run (dnsConnected, ⟨[], []⟩) serverGone =
        some ({ dnsConnected with reconnectNeeded := true },
          ⟨[⟨serverAddr 1, 1⟩, ⟨serverAddr 1, 1⟩],
            [⟨serverAddr 1, [⟨serverAddr 1, 1⟩, ⟨serverAddr 1, 1⟩]⟩]⟩) ∧
      DnsTrigger.Justified ⟨serverAddr 1, [⟨serverAddr 1, 1⟩, ⟨serverAddr 1, 1⟩]⟩ := by
  have hrun : ((dnsMachine 1).ghost DnsLog.next).run (dnsConnected, ⟨[], []⟩) serverGone =
      some ({ dnsConnected with reconnectNeeded := true },
        ⟨[⟨serverAddr 1, 1⟩, ⟨serverAddr 1, 1⟩],
          [⟨serverAddr 1, [⟨serverAddr 1, 1⟩, ⟨serverAddr 1, 1⟩]⟩]⟩) := rfl
  have hsteady : (dnsMachine 1).Meets DnsSteady dnsConnected serverGone :=
    .cons trivial rfl (.cons (Or.inr nofun) rfl
      (.cons trivial rfl (.cons (Or.inr nofun) rfl (Machine.meets_nil _ _))))
  exact ⟨hrun, dnsWatch_justified ⟨rfl, rfl⟩ hsteady hrun _ List.mem_cons_self⟩

/-- A reconnect for another reason between two checks, to the server that is left out then. -/
def movedBetween : List DnsEvent :=
  [.timer, .answer (some [serverAddr 2]), .lock, .publish (serverAddr 2), .unlock, .timer,
    .answer (some [serverAddr 1])]

/-- A reconnect to the server that is listed, while the resolver is asked. -/
def movedMeanwhile : List DnsEvent :=
  [.timer, .answer (some [serverAddr 2]), .timer, .lock, .publish (serverAddr 2), .unlock,
    .answer (some [serverAddr 2])]

/-- A look-up that fails between two misses. -/
def failedBetween : List DnsEvent :=
  [.timer, .answer (some [serverAddr 2]), .timer, .answer none, .timer,
    .answer (some [serverAddr 2])]

/-- In the run `es` the watch reconnects without two misses of the address in use. -/
def ReconnectsInVain (es : List DnsEvent) : Prop :=
  ∃ s g, ((dnsMachine 1).ghost DnsLog.next).run (dnsConnected, ⟨[], []⟩) es = some (s, g) ∧
    ∃ t ∈ g.triggers, ¬ t.Justified

/-- The watch reconnects although the last two checks were not misses of the address in use. -/
theorem dnsWatch_not_justified :
    ReconnectsInVain movedBetween ∧ ReconnectsInVain movedMeanwhile ∧
      ReconnectsInVain failedBetween := by
  have hmoved : (serverAddr 1).ip ≠ (serverAddr 2).ip := by decide
  refine ⟨⟨_, _, rfl, _, List.mem_cons_self, ?_⟩, ⟨_, _, rfl, _, List.mem_cons_self, ?_⟩,
    ⟨_, _, rfl, _, List.mem_cons_self, ?_⟩⟩
  · rintro ⟨c, c', rest, hchecks, -, -, hip⟩
    cases hchecks
    exact hmoved hip
  · rintro ⟨c, c', rest, hchecks, ⟨-, hip⟩, -⟩
    cases hchecks
    exact hmoved hip
  · rintro ⟨c, c', rest, hchecks, -, hresult, -⟩
    cases hchecks
    exact absurd hresult (by decide)

end AwgProxy
