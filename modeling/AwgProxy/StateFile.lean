import AwgProxy.Lib.Bytes
import AwgProxy.Lib.Machine
import AwgProxy.Rotation
import Mathlib.Data.List.TakeWhile

/-!
# The State File

What one run leaves to the next: the family that carried traffic, one byte, and for Cloudflare
WARP the endpoint that answered, a line of its own. Two writers share the file, each with a
budget: the flash it may sit on must not pay for a flapping link. A write fails or succeeds as
a whole, so what the proxy believes the file holds is not always what it holds.

* `stateMachine` — the verdicts, the resets and the first packets of the connections.
* `stateReadEp_stateContent` — an endpoint of one line reads back as it was written.
* `stateFile_budget` — over a run: one write of `he_learn` at most, those of `warp_keep` an
  hour apart and never of the endpoint remembered, and the preference on disk is `disk6`.
-/

namespace AwgProxy

/-! ### The file -/

/-- `STATE_EP_MAX`. -/
abbrev stateEpMax : ℕ := 64

/-- `WARP_SAVE_GAP_MS`. -/
abbrev warpSaveGapMs : UInt64 := 3600000

/-- `'4'`. -/
abbrev char4 : UInt8 := 52

/-- `'6'`. -/
abbrev char6 : UInt8 := 54

/-- A line feed. -/
abbrev newline : UInt8 := 10

/-- `state_read_raw`: the first `max` bytes of what the file at `path` holds; a file that is
missing reads as an empty one. -/
def stateReadRaw (path : Bytes) (file : Option Bytes) (max : ℕ) : Bytes :=
  if path = [] then [] else (file.getD []).take max

/-- `state_read_prefer6`. -/
def stateReadPrefer6 (path : Bytes) (file : Option Bytes) : Bool :=
  stateReadRaw path file 1 == [char6]

/-- `state_read_ep`: the string that ends up in a buffer of `max` bytes. -/
def stateReadEp (path : Bytes) (file : Option Bytes) (max : ℕ) : Bytes :=
  let b := stateReadRaw path file (stateEpMax + 2)
  if b.length > 2 ∧ b[1]? = some newline then
    -- a NUL in the file ends the string
    (((b.drop 2).takeWhile (· != newline)).take (max - 1)).takeWhile (· != 0)
  else []

/-- What `state_write` writes. -/
def stateContent (prefer6 : Bool) (ep : Bytes) : Bytes :=
  (if prefer6 then char6 else char4) ::
    if ep = [] then [] else newline :: ep.take (stateEpMax - 1) ++ [newline]

/-- `state_write`: what it returns and the file it leaves; `ok` says whether the kernel takes
the write. -/
def stateWrite (path : Bytes) (file : Option Bytes) (prefer6 : Bool) (ep : Bytes)
    (ok : Bool) : ℤ × Option Bytes :=
  if path = [] then (-1, file)
  else if ok then (0, some (stateContent prefer6 ep))
  else (-1, file)

/-- A call of `state_write`. -/
inductive StateCall
  /-- By `he_learn`. -/
  | learn (prefer6 : Bool) (ep : Bytes)
  /-- By `warp_keep` at the time `now`, with the endpoint remembered until then. -/
  | keep (now : UInt64) (prefer6 : Bool) (ep remembered : Bytes)
  deriving DecidableEq

/-! ### The proxy -/

/-- `proxy_t` as far as the state file goes, the file, and the clock. -/
structure StateKeeper where
  /-- `prefer6`. -/
  prefer6 : Bool
  /-- `state_written`. -/
  stateWritten : Bool
  /-- `disk6`. -/
  disk6 : Bool
  /-- `warp`. -/
  warp : Bool
  /-- `port_keep`. -/
  portKeep : Bool
  /-- `ep_disk`. -/
  epDisk : Bytes
  /-- `ep_saved_ms`. -/
  epSavedMs : UInt64
  /-- The file, `none` while there is none. -/
  file : Option Bytes
  /-- The clock at the first packet of the last connection. -/
  lastFirst : Option UInt64
  deriving DecidableEq

/-- `he_learn`, and the call of `state_write` it makes. -/
def StateKeeper.heLearn (path : Bytes) (prefer6 ok : Bool) (s : StateKeeper) :
    StateKeeper × Option StateCall :=
  if prefer6 = s.prefer6 then (s, none)
  else
    let s := { s with prefer6 := prefer6 }
    if s.stateWritten then (s, none)
    else
      let w := stateWrite path s.file prefer6 s.epDisk ok
      ({ s with
        stateWritten := true
        disk6 := if w.1 = 0 then prefer6 else s.disk6
        file := w.2 }, some (.learn prefer6 s.epDisk))

/-- `dial_remote` where it finds `he_reset`. -/
def StateKeeper.heReset (s : StateKeeper) : StateKeeper :=
  { s with prefer6 := false }

/-- `warp_keep` on the endpoint in use, and the call of `state_write` it makes. -/
def StateKeeper.warpKeep (path ep : Bytes) (now : UInt64) (ok : Bool) (s : StateKeeper) :
    StateKeeper × Option StateCall :=
  let s := { s with portKeep := true }
  if ep = s.epDisk then (s, none)
  else if s.epSavedMs ≠ 0 ∧ now - s.epSavedMs < warpSaveGapMs then (s, none)
  else
    ({ s with
      epSavedMs := now ||| 1
      epDisk := ep
      file := (stateWrite path s.file s.disk6 ep ok).2 }, some (.keep now s.disk6 ep s.epDisk))

/-- The digits at the head of an endpoint, as `warp_restore` reads them, and the rest. -/
def warpPort : Bytes → ℕ → ℕ × Bytes
  | [], port => (port, [])
  | c :: s, port =>
      if 48 ≤ c ∧ c ≤ 57 ∧ port ≤ 65535 then warpPort s (port * 10 + (c.toNat - 48))
      else (port, c :: s)

/-- `warp_restore`: the endpoint it remembers, if the ports of the configuration allow it and
`inet_pton` reads its address. -/
def warpRestore (path : Bytes) (file : Option Bytes) (portsetHas : Port → Bool)
    (inetPton : Bytes → Bool) : Option Bytes :=
  let ep := stateReadEp path file stateEpMax
  match warpPort ep 0 with
  | (port, 32 :: s) =>
      if port = 0 ∨ port > 65535 ∨ !portsetHas (UInt16.ofNat port) then none
      else if inetPton s then some ep
      else none
  | _ => none

/-- `proxy_init`, where it reads the state file. -/
def StateKeeper.proxyInit (path : Bytes) (file : Option Bytes) (warp : Bool)
    (portsetHas : Port → Bool) (inetPton : Bytes → Bool) : StateKeeper :=
  let ep := if warp then warpRestore path file portsetHas inetPton else none
  { prefer6 := stateReadPrefer6 path file
    stateWritten := false
    disk6 := stateReadPrefer6 path file
    warp := warp
    portKeep := ep.isSome
    epDisk := ep.getD []
    epSavedMs := 0
    file := file
    lastFirst := none }

/-! ### The runs -/

/-- What happens to the s2c thread. -/
inductive StateEvent
  /-- `he_learn` is told which family carries traffic. -/
  | learn (prefer6 ok : Bool)
  /-- A dial finds `he_reset`. -/
  | reset
  /-- The first packet of a connection, from the endpoint `ep` at the time `now`. -/
  | firstPacket (ep : Bytes) (now : UInt64) (ok : Bool)
  deriving DecidableEq

/-- The clock advances by a second at least from one connection to the next. -/
def StateKeeper.InTime (s : StateKeeper) (now : UInt64) : Prop :=
  ∀ last ∈ s.lastFirst, last.toNat + 1000 ≤ now.toNat

instance (s : StateKeeper) (now : UInt64) : Decidable (s.InTime now) :=
  Option.decidableForallMem s.lastFirst

/-- A step, and the call of `state_write` it makes. Only the servers of WARP have their
endpoint remembered. -/
def StateKeeper.stepCall (path : Bytes) (s : StateKeeper) :
    StateEvent → Option (StateKeeper × Option StateCall)
  | .learn prefer6 ok => some (s.heLearn path prefer6 ok)
  | .reset => some (s.heReset, none)
  | .firstPacket ep now ok =>
      if s.InTime now then
        let s := { s with lastFirst := some now }
        if s.warp then some (s.warpKeep path ep now ok) else some (s, none)
      else none

/-- The s2c thread. -/
def stateMachine (path : Bytes) : Machine StateKeeper StateEvent where
  step s e := (s.stepCall path e).map Prod.fst

/-- The record of a run. -/
structure StateLog where
  /-- The calls of `state_write`, the last one first. -/
  calls : List StateCall
  /-- How often the preference a restart would read has changed. -/
  changes : ℕ
  /-- The last verdict, or no preference after a reset. -/
  verdict : Bool

/-- The record after a step. -/
def StateLog.next (path : Bytes) (s : StateKeeper) (e : StateEvent) (s' : StateKeeper)
    (g : StateLog) : StateLog where
  calls := ((s.stepCall path e).bind Prod.snd).toList ++ g.calls
  changes :=
    if stateReadPrefer6 path s'.file = stateReadPrefer6 path s.file then g.changes
    else g.changes + 1
  verdict :=
    match e with
    | .learn prefer6 _ => prefer6
    | .reset => false
    | .firstPacket _ _ _ => g.verdict

/-- The record where a run starts. -/
def StateLog.start (s : StateKeeper) : StateLog :=
  ⟨[], 0, s.prefer6⟩

/-- The writes `he_learn` asked for. -/
def StateLog.learnCalls (g : StateLog) : List StateCall :=
  g.calls.filter fun
    | .learn _ _ => true
    | .keep _ _ _ _ => false

/-- A write of `warp_keep`. -/
structure KeepCall where
  now : UInt64
  ep : Bytes
  remembered : Bytes

/-- The writes `warp_keep` asked for, the last one first. -/
def StateLog.keepCalls (g : StateLog) : List KeepCall :=
  g.calls.filterMap fun
    | .learn _ _ => none
    | .keep now _ ep remembered => some ⟨now, ep, remembered⟩

/-! ### What a file reads as -/

/-- The preference reads back as it was written. -/
theorem stateReadPrefer6_stateContent {path : Bytes} (hpath : path ≠ []) (prefer6 : Bool)
    (ep : Bytes) : stateReadPrefer6 path (some (stateContent prefer6 ep)) = prefer6 := by
  have hne : char4 ≠ char6 := by decide
  cases prefer6 <;> simp [stateReadPrefer6, stateReadRaw, stateContent, hpath, hne]

/-- The preference a restart would read after a write: the one written, or the one before
when the write failed. -/
theorem stateReadPrefer6_stateWrite (path : Bytes) (file : Option Bytes) (prefer6 : Bool)
    (ep : Bytes) (ok : Bool) :
    stateReadPrefer6 path (stateWrite path file prefer6 ep ok).2 =
      if (stateWrite path file prefer6 ep ok).1 = 0 then prefer6
      else stateReadPrefer6 path file := by
  by_cases hpath : path = []
  · simp [stateWrite, hpath]
  · cases ok
    · simp [stateWrite, hpath]
    · simp [stateWrite, hpath, stateReadPrefer6_stateContent]

/-- **An endpoint of one line that fits the buffer reads back as it was written.** -/
theorem stateReadEp_stateContent {path ep : Bytes} (hpath : path ≠ []) (prefer6 : Bool)
    (hlen : ep.length < stateEpMax) (hline : newline ∉ ep) (hstr : 0 ∉ ep) :
    stateReadEp path (some (stateContent prefer6 ep)) stateEpMax = ep := by
  have hnul : ep.takeWhile (· != 0) = ep := by
    rw [List.takeWhile_eq_self_iff]
    intro c hc
    simpa using fun h : c = 0 => hstr (h ▸ hc)
  have hend : (ep ++ [newline]).takeWhile (· != newline) = ep := by
    rw [List.takeWhile_append_of_pos]
    · simp
    · intro c hc
      simpa using fun h : c = newline => hline (h ▸ hc)
  rcases eq_or_ne ep [] with rfl | hep
  · simp [stateReadEp, stateReadRaw, stateContent, hpath]
  · have hshort : ep.take (stateEpMax - 1) = ep := List.take_of_length_le (by omega)
    have hpos : 0 < ep.length := List.length_pos_iff.mpr hep
    have hraw : stateReadRaw path (some (stateContent prefer6 ep)) (stateEpMax + 2) =
        (if prefer6 then char6 else char4) :: newline :: (ep ++ [newline]) := by
      rw [stateReadRaw, if_neg hpath, stateContent, if_neg hep, hshort]
      refine List.take_of_length_le ?_
      simp only [Option.getD_some, List.cons_append, List.length_cons, List.length_append,
        List.length_nil]
      omega
    rw [stateReadEp]
    simp only [hraw]
    rw [if_pos (by simp [hpos]), List.drop_succ_cons, List.drop_succ_cons, List.drop_zero, hend,
      hshort, hnul]

/-! ### What a step does -/

/-- `he_learn` takes the verdict; the first one that is news goes to the file. -/
theorem heLearn_cases (path : Bytes) (prefer6 ok : Bool) (s : StateKeeper) :
    s.heLearn path prefer6 ok = ({ s with prefer6 := prefer6 }, none) ∨
      s.stateWritten = false ∧ s.heLearn path prefer6 ok =
        ({ s with
          prefer6 := prefer6
          stateWritten := true
          disk6 := if (stateWrite path s.file prefer6 s.epDisk ok).1 = 0 then prefer6
            else s.disk6
          file := (stateWrite path s.file prefer6 s.epDisk ok).2 },
          some (.learn prefer6 s.epDisk)) := by
  rw [StateKeeper.heLearn]
  by_cases hnews : prefer6 = s.prefer6
  · rw [if_pos hnews, hnews]
    exact Or.inl rfl
  · rw [if_neg hnews]
    cases hwritten : s.stateWritten
    · exact Or.inr ⟨rfl, by simp⟩
    · exact Or.inl (by simp)

/-- `warp_keep` writes an endpoint that is news, when nothing was written for long enough. -/
theorem warpKeep_cases (path ep : Bytes) (now : UInt64) (ok : Bool) (s : StateKeeper) :
    s.warpKeep path ep now ok = ({ s with portKeep := true }, none) ∨
      ep ≠ s.epDisk ∧ (s.epSavedMs = 0 ∨ warpSaveGapMs ≤ now - s.epSavedMs) ∧
        s.warpKeep path ep now ok =
          ({ s with
            portKeep := true
            epSavedMs := now ||| 1
            epDisk := ep
            file := (stateWrite path s.file s.disk6 ep ok).2 },
            some (.keep now s.disk6 ep s.epDisk)) := by
  rw [StateKeeper.warpKeep]
  by_cases hnews : ep = s.epDisk
  · exact Or.inl (by simp [hnews])
  · by_cases hwait : s.epSavedMs ≠ 0 ∧ now - s.epSavedMs < warpSaveGapMs
    · exact Or.inl (by simp [hnews, hwait])
    · refine Or.inr ⟨hnews, ?_, by simp only [if_neg hnews, if_neg hwait]⟩
      rw [not_and_or, not_not, UInt64.not_lt] at hwait
      exact hwait

/-- The time `warp_keep` stores is never 0, and at most one millisecond late. -/
theorem toNat_or_one (now : UInt64) :
    now ||| 1 ≠ 0 ∧ now.toNat ≤ (now ||| 1).toNat ∧ (now ||| 1).toNat ≤ now.toNat + 1 := by
  have hor : (now ||| 1).toNat = now.toNat ||| 1 := UInt64.toNat_or now 1
  have hle : now.toNat ≤ now.toNat ||| 1 := Nat.left_le_or
  have hhalf : (now.toNat ||| 1) / 2 = now.toNat / 2 := by simp [Nat.or_div_two]
  have hone : 1 ≤ now.toNat ||| 1 := Nat.right_le_or
  refine ⟨fun h => ?_, by omega, by omega⟩
  rw [h] at hor
  exact absurd hor (by simp; omega)

/-! ### The invariant -/

/-- What the record says about the proxy and the file. -/
structure StateInv (path : Bytes) (s : StateKeeper) (g : StateLog) : Prop where
  /-- `disk6` is what the file holds, also after a write that failed. -/
  read : stateReadPrefer6 path s.file = s.disk6
  verdict : s.prefer6 = g.verdict
  written : g.learnCalls.length = if s.stateWritten then 1 else 0
  changes : g.changes ≤ g.learnCalls.length
  news : ∀ w ∈ g.keepCalls, w.ep ≠ w.remembered
  apart : g.keepCalls.Pairwise fun w v => v.now.toNat + warpSaveGapMs.toNat ≤ w.now.toNat
  /-- The last write of `warp_keep` is not later than `ep_saved_ms`, which is 0 before it. -/
  saved : ∀ w ∈ g.keepCalls, s.epSavedMs ≠ 0 ∧ w.now.toNat ≤ s.epSavedMs.toNat
  /-- The connection `ep_saved_ms` is from has begun. -/
  begun : s.epSavedMs ≠ 0 → ∃ last ∈ s.lastFirst, s.epSavedMs.toNat ≤ last.toNat + 1

/-- The record after a step that calls `state_write` or not. -/
theorem StateLog.calls_next {path : Bytes} {s s' : StateKeeper} {e : StateEvent}
    {c : Option StateCall} (h : s.stepCall path e = some (s', c)) (g : StateLog) :
    (g.next path s e s').calls = c.toList ++ g.calls := by
  simp [StateLog.next, h]

/-- A preference that stays as it was on disk is no change. -/
theorem StateLog.changes_next {path : Bytes} {s s' : StateKeeper} (e : StateEvent)
    (h : stateReadPrefer6 path s'.file = stateReadPrefer6 path s.file) (g : StateLog) :
    (g.next path s e s').changes = g.changes := by
  simp [StateLog.next, h]

/-- A first packet does not change the verdict. -/
theorem StateLog.verdict_firstPacket (path ep : Bytes) (s s' : StateKeeper) (now : UInt64)
    (ok : Bool) (g : StateLog) :
    (g.next path s (.firstPacket ep now ok) s').verdict = g.verdict := by
  rfl

/-- A write of `he_learn` is one of its own. -/
theorem StateLog.calls_learn {g g' : StateLog} {prefer6 : Bool} {ep : Bytes}
    (h : g'.calls = .learn prefer6 ep :: g.calls) :
    g'.learnCalls = .learn prefer6 ep :: g.learnCalls ∧ g'.keepCalls = g.keepCalls := by
  constructor
  · simp [StateLog.learnCalls, h]
  · simp [StateLog.keepCalls, h]

/-- A write of `warp_keep` is one of its own. -/
theorem StateLog.calls_keep {g g' : StateLog} {now : UInt64} {prefer6 : Bool}
    {ep remembered : Bytes} (h : g'.calls = .keep now prefer6 ep remembered :: g.calls) :
    g'.learnCalls = g.learnCalls ∧ g'.keepCalls = ⟨now, ep, remembered⟩ :: g.keepCalls := by
  constructor
  · simp [StateLog.learnCalls, h]
  · simp [StateLog.keepCalls, h]

/-- A step that writes nothing. -/
theorem StateInv.quiet {path : Bytes} {s s' : StateKeeper} {g g' : StateLog}
    (hi : StateInv path s g) (hcalls : g'.calls = g.calls) (hchanges : g'.changes = g.changes)
    (hfile : s'.file = s.file) (hdisk : s'.disk6 = s.disk6)
    (hwritten : s'.stateWritten = s.stateWritten) (hsaved : s'.epSavedMs = s.epSavedMs)
    (hverdict : s'.prefer6 = g'.verdict)
    (hbegun : s.epSavedMs ≠ 0 → ∃ last ∈ s'.lastFirst, s.epSavedMs.toNat ≤ last.toNat + 1) :
    StateInv path s' g' := by
  have hlearn : g'.learnCalls = g.learnCalls := by
    rw [StateLog.learnCalls, StateLog.learnCalls, hcalls]
  have hkeep : g'.keepCalls = g.keepCalls := by
    rw [StateLog.keepCalls, StateLog.keepCalls, hcalls]
  refine ⟨?_, hverdict, ?_, ?_, ?_, ?_, ?_, ?_⟩
  · rw [hfile, hdisk, hi.read]
  · rw [hlearn, hwritten, hi.written]
  · rw [hlearn, hchanges]
    exact hi.changes
  · rw [hkeep]
    exact hi.news
  · rw [hkeep]
    exact hi.apart
  · rw [hkeep, hsaved]
    exact hi.saved
  · rw [hsaved]
    exact hbegun

/-- A verdict. -/
theorem StateInv.learn {path : Bytes} {s s' : StateKeeper} {c : Option StateCall}
    {prefer6 ok : Bool} {g : StateLog} (hi : StateInv path s g)
    (hs : s.heLearn path prefer6 ok = (s', c)) :
    StateInv path s' (g.next path s (.learn prefer6 ok) s') := by
  have hcalls := StateLog.calls_next (e := .learn prefer6 ok) (congrArg some hs) g
  rcases heLearn_cases path prefer6 ok s with hq | ⟨hfirst, hq⟩
  · obtain ⟨rfl, rfl⟩ := Prod.mk.inj (hs.symm.trans hq)
    exact hi.quiet hcalls (StateLog.changes_next _ rfl g) rfl rfl rfl rfl rfl hi.begun
  · obtain ⟨rfl, rfl⟩ := Prod.mk.inj (hs.symm.trans hq)
    have hnone : g.learnCalls.length = 0 := by rw [hi.written, hfirst]; rfl
    have hchanges : g.changes = 0 := by have := hi.changes; omega
    obtain ⟨hlearn, hkeep⟩ := StateLog.calls_learn hcalls
    refine ⟨?_, rfl, ?_, ?_, ?_, ?_, ?_, hi.begun⟩
    · rw [stateReadPrefer6_stateWrite, hi.read]
    · rw [hlearn, List.length_cons, hnone]
      rfl
    · rw [hlearn, List.length_cons, hnone]
      simp only [StateLog.next, hchanges]
      split_ifs <;> omega
    · rw [hkeep]
      exact hi.news
    · rw [hkeep]
      exact hi.apart
    · rw [hkeep]
      exact hi.saved

/-- The first packet of a connection to WARP: the one before began a second ago, so the time
since the last write is not taken across the wrap of the clock. -/
theorem StateInv.firstPacket {path ep : Bytes} {s s' : StateKeeper} {c : Option StateCall}
    {now : UInt64} {ok : Bool} {g : StateLog} (hi : StateInv path s g) (htime : s.InTime now)
    (hs : { s with lastFirst := some now }.warpKeep path ep now ok = (s', c))
    (hcall : s.stepCall path (.firstPacket ep now ok) = some (s', c)) :
    StateInv path s' (g.next path s (.firstPacket ep now ok) s') := by
  have hcalls := StateLog.calls_next hcall g
  have hearlier : s.epSavedMs ≠ 0 → s.epSavedMs.toNat ≤ now.toNat := by
    intro hne
    obtain ⟨last, hlast, hle⟩ := hi.begun hne
    have := htime last hlast
    omega
  rcases warpKeep_cases path ep now ok { s with lastFirst := some now } with
    hq | ⟨hnews, hwait, hq⟩
  · obtain ⟨rfl, rfl⟩ := Prod.mk.inj (hs.symm.trans hq)
    refine hi.quiet hcalls (StateLog.changes_next _ rfl g) rfl rfl rfl rfl ?_
      fun hne => ⟨now, rfl, ?_⟩
    · rw [StateLog.verdict_firstPacket]
      exact hi.verdict
    have := hearlier hne
    omega
  · obtain ⟨rfl, rfl⟩ := Prod.mk.inj (hs.symm.trans hq)
    obtain ⟨hpos, hle, hge⟩ := toNat_or_one now
    have hread : stateReadPrefer6 path (stateWrite path s.file s.disk6 ep ok).2 = s.disk6 := by
      rw [stateReadPrefer6_stateWrite, hi.read, ite_self]
    obtain ⟨hlearn, hkeep⟩ := StateLog.calls_keep hcalls
    have hgap : ∀ w ∈ g.keepCalls, w.now.toNat + warpSaveGapMs.toNat ≤ now.toNat := by
      intro w hw
      obtain ⟨hne, hbefore⟩ := hi.saved w hw
      have hsub : (now - s.epSavedMs).toNat = now.toNat - s.epSavedMs.toNat :=
        UInt64.toNat_sub_of_le _ _ (UInt64.le_iff_toNat_le.mpr (hearlier hne))
      have hlong := UInt64.le_iff_toNat_le.mp (hwait.resolve_left hne)
      have hdiff : (now - s.epSavedMs).toNat ≤ now.toNat - s.epSavedMs.toNat := hsub.le
      have := hearlier hne
      have hlong' : warpSaveGapMs.toNat ≤ now.toNat - s.epSavedMs.toNat := hlong.trans hdiff
      omega
    refine ⟨hread, ?_, by rw [hlearn, hi.written], ?_, ?_, ?_, ?_, fun _ => ⟨now, rfl, hge⟩⟩
    · rw [StateLog.verdict_firstPacket]
      exact hi.verdict
    · rw [hlearn, StateLog.changes_next _ (hread.trans hi.read.symm) g]
      exact hi.changes
    · rw [hkeep, List.forall_mem_cons]
      exact ⟨hnews, hi.news⟩
    · rw [hkeep, List.pairwise_cons]
      exact ⟨hgap, hi.apart⟩
    · rw [hkeep, List.forall_mem_cons]
      refine ⟨⟨hpos, hle⟩, fun w hw => ⟨hpos, ?_⟩⟩
      have := hgap w hw
      show w.now.toNat ≤ (now ||| 1).toNat
      omega

/-- **The invariant survives every step.** -/
theorem StateInv.step {path : Bytes} {s s' : StateKeeper} {e : StateEvent} {g : StateLog}
    (hi : StateInv path s g) (hs : (stateMachine path).step s e = some s') :
    StateInv path s' (g.next path s e s') := by
  obtain ⟨⟨t, c⟩, hcall, rfl⟩ := Option.map_eq_some_iff.mp hs
  cases e with
  | learn prefer6 ok => exact hi.learn (Option.some.inj hcall)
  | reset =>
      obtain ⟨rfl, rfl⟩ := Prod.mk.inj (Option.some.inj hcall)
      exact hi.quiet rfl (StateLog.changes_next _ rfl g) rfl rfl rfl rfl rfl hi.begun
  | firstPacket ep now ok =>
      have hcall' := hcall
      simp only [StateKeeper.stepCall] at hcall'
      split_ifs at hcall' with htime hwarp
      · exact hi.firstPacket htime (Option.some.inj hcall') hcall
      · obtain ⟨rfl, rfl⟩ := Prod.mk.inj (Option.some.inj hcall')
        refine hi.quiet (StateLog.calls_next hcall g) (StateLog.changes_next _ rfl g) rfl rfl rfl
          rfl ?_ fun hne => ?_
        · rw [StateLog.verdict_firstPacket]
          exact hi.verdict
        obtain ⟨last, hlast, hle⟩ := hi.begun hne
        have := htime last hlast
        exact ⟨now, rfl, by omega⟩

/-! ### The runs -/

/-- **The flash budget and the content of the state file.** In every run of verdicts, resets
and first packets, whichever writes fail: `he_learn` asks for one write at most; those of
`warp_keep` are `WARP_SAVE_GAP_MS` apart and never of the endpoint remembered; the preference
a restart would read is `disk6` and has changed once at most; and the preference in memory is
the last verdict, or none after a reset. -/
theorem stateFile_budget {path : Bytes} {file : Option Bytes} {warp : Bool}
    {portsetHas : Port → Bool} {inetPton : Bytes → Bool} {es : List StateEvent}
    {t : StateKeeper} {g : StateLog}
    (hrun : ((stateMachine path).ghost (StateLog.next path)).run
      (StateKeeper.proxyInit path file warp portsetHas inetPton,
        .start (StateKeeper.proxyInit path file warp portsetHas inetPton)) es = some (t, g)) :
    g.learnCalls.length ≤ 1 ∧
      g.keepCalls.Pairwise (fun w v => v.now.toNat + warpSaveGapMs.toNat ≤ w.now.toNat) ∧
      (∀ w ∈ g.keepCalls, w.ep ≠ w.remembered) ∧
      stateReadPrefer6 path t.file = t.disk6 ∧ g.changes ≤ 1 ∧ t.prefer6 = g.verdict := by
  have hinit : StateInv path (StateKeeper.proxyInit path file warp portsetHas inetPton)
      (.start (StateKeeper.proxyInit path file warp portsetHas inetPton)) :=
    ⟨rfl, rfl, rfl, le_rfl, nofun, .nil, nofun, fun hne => absurd rfl hne⟩
  have hstep : ∀ (p : StateKeeper × StateLog) (e : StateEvent) (q : StateKeeper × StateLog),
      StateInv path p.1 p.2 →
      ((stateMachine path).ghost (StateLog.next path)).step p e = some q →
      StateInv path q.1 q.2 := by
    intro p e q hi hstep
    obtain ⟨hs, hg⟩ := Machine.step_ghost_eq_some.mp hstep
    rw [hg]
    exact hi.step hs
  have hi := Machine.run_induction hstep hinit hrun
  have hone : g.learnCalls.length ≤ 1 := by
    rw [hi.written]
    split_ifs <;> omega
  exact ⟨hone, hi.apart, hi.news, hi.read, hi.changes.trans hone, hi.verdict⟩

/-- A restart that finds no file and dials WARP. -/
def freshWarp : StateKeeper :=
  .proxyInit [47] none true (fun _ => true) fun _ => true

/-- A verdict the file takes, the first packet of a connection, and a second one from elsewhere
too soon after it. -/
theorem run_freshWarp : ((stateMachine [47]).ghost (StateLog.next [47])).run
    (freshWarp, .start freshWarp)
    [.learn true true, .firstPacket [53, 32, 49] 5000 true,
      .firstPacket [54, 32, 49] 6000 true] =
    some (⟨true, true, true, true, true, [53, 32, 49], 5001, some [54, 10, 53, 32, 49, 10],
      some 6000⟩, ⟨[.keep 5000 true [53, 32, 49] [], .learn true []], 1, true⟩) := by
  rfl

/-- The budget is kept there, with both writers at work. -/
theorem stateFile_budget_warp :
    (StateLog.mk [.keep 5000 true [53, 32, 49] [], .learn true []] 1 true).learnCalls.length ≤ 1 ∧
      stateReadPrefer6 [47] (some [54, 10, 53, 32, 49, 10]) = true :=
  have h := stateFile_budget run_freshWarp
  ⟨h.1, h.2.2.2.1⟩

end AwgProxy
