import AwgProxy.PortDraw
import AwgProxy.Resolve
import AwgProxy.StateFile

/-!
# The Endpoint of the Last Run

For Cloudflare WARP the endpoint that answered is written to the state file, as its port and
its address with a space between them, and the next run starts on it. The text goes through
`inet_ntop` and comes back through `inet_pton`, which are taken as they are given (`Inet`); the
restorer has `inet_pton` write into the address it is about to set.

* `warpPort_append`, `exists_of_warpPort` — the digits at the head of a text, both ways.
* `u32ToStr_spec` — the digits of a port.
* `warpRestore_cases` — an endpoint is restored as a whole, or nothing but address bytes change.
* `stateRestored` — what is written is read back and restored, and nothing else is restored.
-/

namespace AwgProxy

/-! ### The code -/

/-- `inet_pton` and `inet_ntop`. -/
structure Inet where
  /-- `inet_pton(AF_INET, ..)`: the address a text is accepted as. -/
  pton4 : Bytes → Option (Vector UInt8 4)
  /-- What it leaves at the destination where it rejects the text. -/
  left4 : Bytes → Vector UInt8 4 → Vector UInt8 4
  /-- `inet_pton(AF_INET6, ..)`. -/
  pton6 : Bytes → Option (Vector UInt8 16)
  /-- What it leaves at the destination where it rejects the text. -/
  left6 : Bytes → Vector UInt8 16 → Vector UInt8 16
  /-- `inet_ntop(AF_INET, ..)`. -/
  ntop4 : Vector UInt8 4 → Bytes
  /-- `inet_ntop(AF_INET6, ..)`. -/
  ntop6 : Vector UInt8 16 → Bytes

/-- `p->remote`, as far as the endpoint of the last run goes: the two addresses have places of
their own. -/
structure WarpRemote where
  /-- `sa.ss_family`. -/
  family : SaFamily
  /-- `sin_addr`. -/
  addr4 : Vector UInt8 4
  /-- `sin6_addr`. -/
  addr6 : Vector UInt8 16
  /-- `len`. -/
  len : ℕ

/-- `proxy_t`, as far as `ep_str` and `warp_restore` read and write it. -/
structure WarpStart where
  /-- `remote`. -/
  remote : WarpRemote
  /-- `remote_port`. -/
  remotePort : Port
  /-- `port_keep`. -/
  portKeep : Bool
  /-- The string in `ep_disk`. -/
  epDisk : Bytes

/-- The loop of `u32_to_str`, with `room` bytes of the buffer in front of `p`. -/
def u32ToStrLoop : ℕ → ℕ → Bytes → Bytes
  | 0, _, p => p
  | room + 1, v, p =>
      if v > 0 then u32ToStrLoop room (v / 10) (.ofNat (48 + v % 10) :: p) else p

/-- `u32_to_str`. -/
def u32ToStr (v : ℕ) : Bytes := if v = 0 then [48] else u32ToStrLoop 11 v []

/-- `sa_str`. -/
def saStr (inet : Inet) (r : WarpRemote) : Bytes :=
  match r.family with
  | .inet6 => inet.ntop6 r.addr6
  | .inet => inet.ntop4 r.addr4
  -- `inet_ntop` knows no other family
  | .other _ => [63]

/-- `ep_str`. -/
def epStr (inet : Inet) (s : WarpStart) : Bytes :=
  u32ToStr s.remotePort.toNat ++ 32 :: saStr inet s.remote

/-- The size of `struct sockaddr_in`. -/
abbrev sockaddrIn : ℕ := 16

/-- The size of `struct sockaddr_in6`. -/
abbrev sockaddrIn6 : ℕ := 28

/-- The part of `warp_restore` that reads the address into `p->remote`, and whether it can. -/
def restoreRemote (inet : Inet) (text : Bytes) (r : WarpRemote) : Bool × WarpRemote :=
  match inet.pton4 text with
  | some a => (true, { r with family := .inet, addr4 := a, len := sockaddrIn })
  | none =>
      let r := { r with addr4 := inet.left4 text r.addr4 }
      match inet.pton6 text with
      | some a => (true, { r with family := .inet6, addr6 := a, len := sockaddrIn6 })
      | none => (false, { r with addr6 := inet.left6 text r.addr6 })

/-- `warp_restore`. -/
def WarpStart.warpRestore (path : Bytes) (file : Option Bytes) (ports : PortSet) (inet : Inet)
    (s : WarpStart) : WarpStart :=
  let ep := stateReadEp path file stateEpMax
  match warpPort ep 0 with
  | (port, 32 :: text) =>
      if port = 0 ∨ port > 65535 ∨ !portsetHas ports (.ofNat port) then s
      else
        let (ok, remote) := restoreRemote inet text s.remote
        if ok then ⟨remote, .ofNat port, true, ep⟩ else { s with remote := remote }
  | _ => s

/-! ### What is meant -/

/-- A decimal digit. -/
def IsPortDigit (c : UInt8) : Prop := 48 ≤ c ∧ c ≤ 57

instance : DecidablePred IsPortDigit := fun c => inferInstanceAs (Decidable (48 ≤ c ∧ c ≤ 57))

/-- The number that digits denote, behind others of value `v`. -/
def digitsFrom (v : ℕ) (ds : Bytes) : ℕ := ds.foldl (fun v c => v * 10 + (c.toNat - 48)) v

/-- The address in use. -/
def WarpRemote.ip (r : WarpRemote) : IpAddr :=
  match r.family with
  | .inet => .v4 r.addr4
  | .inet6 => .v6 r.addr6
  | .other code => .other code

/-- The text is that of an address. -/
def Inet.Reads (inet : Inet) (text : Bytes) : Prop :=
  inet.pton4 text ≠ none ∨ inet.pton6 text ≠ none

/-- Digits, a space and an address. -/
def IsEndpoint (inet : Inet) (ep : Bytes) : Prop :=
  ∃ ds text, ep = ds ++ 32 :: text ∧ (∀ c ∈ ds, IsPortDigit c) ∧ inet.Reads text

/-- `inet_pton` leaves its destination alone where it rejects the text. -/
structure Inet.Clean (inet : Inet) : Prop where
  left4 : ∀ text a, inet.left4 text a = a
  left6 : ∀ text a, inet.left6 text a = a

/-- The text of the address in use is a line of a few characters that reads back as it. -/
structure Inet.Inverse (inet : Inet) (r : WarpRemote) : Prop where
  length : (saStr inet r).length ≤ 45
  line : newline ∉ saStr inet r
  str : 0 ∉ saStr inet r
  known : r.family.known = true
  inet4 : r.family = .inet → inet.pton4 (inet.ntop4 r.addr4) = some r.addr4
  inet6 : r.family = .inet6 →
    inet.pton4 (inet.ntop6 r.addr6) = none ∧ inet.pton6 (inet.ntop6 r.addr6) = some r.addr6

/-- A port of the set. -/
def PortOf (ports : PortSet) (port : ℕ) : Prop :=
  port ≤ 65535 ∧ portsetHas ports (.ofNat port) = true

/-- What the state file is for. -/
structure StateRestored (path : Bytes) (ports : PortSet) (inet : Inet) : Prop where
  /-- The preference and the endpoint are read back as they were written. -/
  reads : ∀ {file : Option Bytes} {prefer6 : Bool} {ep : Bytes} {ok : Bool},
    (stateWrite path file prefer6 ep ok).1 = 0 → ep.length ≤ 63 → newline ∉ ep → 0 ∉ ep →
    stateReadPrefer6 path (stateWrite path file prefer6 ep ok).2 = prefer6 ∧
      stateReadEp path (stateWrite path file prefer6 ep ok).2 stateEpMax = ep
  /-- The endpoint in use is the one the next run starts on. -/
  restores : ∀ {file : Option Bytes} {prefer6 ok : Bool} {last : WarpStart},
    PortOf ports last.remotePort.toNat → inet.Inverse last.remote →
    (stateWrite path file prefer6 (epStr inet last) ok).1 = 0 → ∀ s : WarpStart,
    let s' := s.warpRestore path (stateWrite path file prefer6 (epStr inet last) ok).2 ports inet
    s'.remotePort = last.remotePort ∧ s'.remote.ip = last.remote.ip ∧ s'.portKeep = true ∧
      s'.epDisk = epStr inet last
  /-- A port that is not of the set changes nothing. -/
  outside : ∀ {file : Option Bytes} {ds text : Bytes},
    stateReadEp path file stateEpMax = ds ++ 32 :: text → (∀ c ∈ ds, IsPortDigit c) →
    ¬ PortOf ports (digitsFrom 0 ds) →
    ∀ s : WarpStart, s.warpRestore path file ports inet = s
  /-- Neither does a text of another form, but for what `inet_pton` may leave at the addresses. -/
  malformed : ∀ {file : Option Bytes}, ¬ IsEndpoint inet (stateReadEp path file stateEpMax) →
    ∀ s : WarpStart, ∃ addr4 addr6,
      s.warpRestore path file ports inet =
        { s with remote := { s.remote with addr4 := addr4, addr6 := addr6 } } ∧
      (inet.Clean → s.warpRestore path file ports inet = s)

/-! ### Digits -/

theorem digitsFrom_append (v : ℕ) (ds es : Bytes) :
    digitsFrom v (ds ++ es) = digitsFrom (digitsFrom v ds) es := List.foldl_append

/-- Digits behind a number do not make it smaller. -/
theorem le_digitsFrom (v : ℕ) (ds : Bytes) : v ≤ digitsFrom v ds := by
  induction ds generalizing v with
  | nil => exact le_rfl
  | cons c ds ih =>
      have htail : v * 10 + (c.toNat - 48) ≤ digitsFrom v (c :: ds) := ih _
      omega

/-- **Reading**: the digits of a number that is not too large, up to what follows them. -/
theorem warpPort_append {ds : Bytes} (hds : ∀ c ∈ ds, IsPortDigit c) {c : UInt8}
    (hc : ¬ IsPortDigit c) (s : Bytes) {v : ℕ} (hv : digitsFrom v ds ≤ 65535) :
    warpPort (ds ++ c :: s) v = (digitsFrom v ds, c :: s) := by
  induction ds generalizing v with
  | nil =>
      rw [List.nil_append, warpPort, if_neg fun h => hc ⟨h.1, h.2.1⟩]
      rfl
  | cons d ds ih =>
      obtain ⟨hd, hds⟩ := List.forall_mem_cons.mp hds
      have hle := (le_digitsFrom v (d :: ds)).trans hv
      rw [List.cons_append, warpPort, if_pos ⟨hd.1, hd.2, hle⟩]
      exact ih hds hv

/-- What is read is digits, and their value. -/
theorem exists_of_warpPort (ep : Bytes) (v : ℕ) :
    ∃ ds, ep = ds ++ (warpPort ep v).2 ∧ (∀ c ∈ ds, IsPortDigit c) ∧
      (warpPort ep v).1 = digitsFrom v ds := by
  induction ep generalizing v with
  | nil => exact ⟨[], rfl, nofun, rfl⟩
  | cons c ep ih =>
      rw [warpPort]
      split
      · next h =>
          obtain ⟨ds, hep, hds, hval⟩ := ih (v * 10 + (c.toNat - 48))
          exact ⟨c :: ds, congrArg (c :: ·) hep, List.forall_mem_cons.mpr ⟨⟨h.1, h.2.1⟩, hds⟩, hval⟩
      · exact ⟨[], rfl, nofun, rfl⟩

/-- The digits written in front of others. -/
theorem u32ToStrLoop_spec {room v : ℕ} (hv : v < 10 ^ room) (p : Bytes) :
    ∃ ds, u32ToStrLoop room v p = ds ++ p ∧ (∀ c ∈ ds, IsPortDigit c) ∧ digitsFrom 0 ds = v ∧
      ∀ k, v < 10 ^ k → ds.length ≤ k := by
  induction room generalizing v p with
  | zero =>
      have hzero : v = 0 := by omega
      exact ⟨[], rfl, nofun, hzero.symm, fun _ _ => Nat.zero_le _⟩
  | succ room ih =>
      rw [u32ToStrLoop]
      split
      · next hpos =>
          have hlt : v / 10 < 10 ^ room := by
            rw [Nat.pow_succ] at hv
            omega
          have hdigit : (UInt8.ofNat (48 + v % 10)).toNat = 48 + v % 10 :=
            UInt8.toNat_ofNat_of_lt' (by simp only [UInt8.size]; omega)
          obtain ⟨ds, hloop, hds, hval, hlen⟩ := ih hlt (.ofNat (48 + v % 10) :: p)
          refine ⟨ds ++ [.ofNat (48 + v % 10)], ?_, fun c hc => ?_, ?_, fun k hk => ?_⟩
          · rw [hloop, List.append_assoc]
            rfl
          · rcases List.mem_append.mp hc with hc | hc
            · exact hds c hc
            · rw [List.mem_singleton.mp hc, IsPortDigit, UInt8.le_iff_toNat_le,
                UInt8.le_iff_toNat_le, hdigit]
              simp only [UInt8.reduceToNat]
              omega
          · rw [digitsFrom_append, hval, digitsFrom, List.foldl_cons, List.foldl_nil, hdigit]
            omega
          · rw [List.length_append, List.length_singleton]
            cases k with
            | zero => omega
            | succ k =>
                have := hlen k (by rw [Nat.pow_succ] at hk; omega)
                omega
      · exact ⟨[], rfl, nofun, by rw [digitsFrom, List.foldl_nil]; omega, fun _ _ => Nat.zero_le _⟩

/-- **The digits of a port**: at most five. -/
theorem u32ToStr_spec {v : ℕ} (hv : v ≤ 65535) :
    (∀ c ∈ u32ToStr v, IsPortDigit c) ∧ digitsFrom 0 (u32ToStr v) = v ∧
      (u32ToStr v).length ≤ 5 := by
  rw [u32ToStr]
  split
  · next hzero =>
      rw [hzero]
      exact ⟨List.forall_mem_singleton.mpr ⟨by decide, by decide⟩, rfl, by decide⟩
  · have hroom : v < 10 ^ 11 := Nat.lt_of_le_of_lt hv (by decide)
    obtain ⟨ds, hloop, hds, hval, hlen⟩ := u32ToStrLoop_spec hroom []
    rw [List.append_nil] at hloop
    rw [hloop]
    exact ⟨hds, hval, hlen 5 (by omega)⟩

/-! ### The restorer -/

theorem not_isPortDigit_space : ¬ IsPortDigit 32 := fun h => absurd h.1 (by decide)

/-- There is no space among digits. -/
theorem space_notMem {ds : Bytes} (hds : ∀ c ∈ ds, IsPortDigit c) : 32 ∉ ds :=
  fun hmem => not_isPortDigit_space (hds 32 hmem)

/-- An address that is read is set with its family, and one that is not leaves the family and
the length alone. -/
theorem restoreRemote_spec (inet : Inet) (text : Bytes) (r : WarpRemote) :
    (restoreRemote inet text r).1 = true ∧ inet.Reads text ∨
      ¬ inet.Reads text ∧ ∃ addr4 addr6,
        restoreRemote inet text r = (false, { r with addr4 := addr4, addr6 := addr6 }) ∧
          (inet.Clean → addr4 = r.addr4 ∧ addr6 = r.addr6) := by
  rw [restoreRemote, Inet.Reads]
  cases h4 : inet.pton4 text with
  | some a => exact Or.inl ⟨rfl, Or.inl nofun⟩
  | none =>
      cases h6 : inet.pton6 text with
      | some a => exact Or.inl ⟨rfl, Or.inr nofun⟩
      | none =>
          exact Or.inr ⟨fun h => h.elim (absurd rfl) (absurd rfl), _, _, rfl,
            fun hclean => ⟨hclean.left4 _ _, hclean.left6 _ _⟩⟩

/-- **The restorer** on digits and a space. -/
theorem warpRestore_of_digits {path : Bytes} {file : Option Bytes} {ports : PortSet} (inet : Inet)
    {ds text : Bytes} (hep : stateReadEp path file stateEpMax = ds ++ 32 :: text)
    (hds : ∀ c ∈ ds, IsPortDigit c) {port : ℕ} (hport : digitsFrom 0 ds = port) (h0 : 0 < port)
    (hof : PortOf ports port) (s : WarpStart) :
    s.warpRestore path file ports inet =
      if (restoreRemote inet text s.remote).1 then
        ⟨(restoreRemote inet text s.remote).2, .ofNat port, true, ds ++ 32 :: text⟩
      else { s with remote := (restoreRemote inet text s.remote).2 } := by
  have hrun := warpPort_append hds not_isPortDigit_space text (hport.trans_le hof.1)
  have hgood : ¬ (port = 0 ∨ port > 65535 ∨ (!portsetHas ports (.ofNat port)) = true) := by
    rw [hof.2]
    rintro (h | h | h)
    · omega
    · exact absurd h (Nat.not_lt.mpr hof.1)
    · cases h
  rw [hport] at hrun
  rw [WarpStart.warpRestore, hep, hrun]
  exact if_neg hgood

/-- **The restorer** changes nothing where the text does not name a port of the set. -/
theorem warpRestore_of_no_port {path : Bytes} {file : Option Bytes} {ports : PortSet} {inet : Inet}
    (h : ∀ ds text, stateReadEp path file stateEpMax = ds ++ 32 :: text →
      (∀ c ∈ ds, IsPortDigit c) → ¬ PortOf ports (digitsFrom 0 ds)) (s : WarpStart) :
    s.warpRestore path file ports inet = s := by
  obtain ⟨ds, hep, hds, hval⟩ := exists_of_warpPort (stateReadEp path file stateEpMax) 0
  rw [WarpStart.warpRestore]
  dsimp only
  split
  · next port text hrun =>
      rw [hrun] at hep hval
      refine if_pos (Or.inr ?_)
      have hno := h ds text hep hds
      rw [← hval] at hno
      rcases Nat.lt_or_ge 65535 port with hlarge | hsmall
      · exact Or.inl hlarge
      · have hhas := fun hhas => hno ⟨hsmall, hhas⟩
        exact Or.inr (by rw [Bool.eq_false_iff.mpr hhas]; rfl)
  · rfl

/-- Zero is no port of a configured set. -/
theorem PortOf.pos {spec : List Char} {ports : PortSet} (hports : parsePortSet spec = some ports)
    {port : ℕ} (h : PortOf ports port) : 0 < port := by
  obtain ⟨x, hx, hin⟩ := List.any_eq_true.mp h.2
  have hpos := (portList_of_parsePortSet hports).lo_pos x hx
  refine Nat.pos_of_ne_zero fun hzero => ?_
  rw [hzero, Bool.and_eq_true, decide_eq_true_iff] at hin
  exact absurd (hpos.trans_le hin.1) (Nat.lt_irrefl 0)

/-- The text of an endpoint fits its buffer and the file. -/
theorem length_epStr {inet : Inet} {s : WarpStart} (h : inet.Inverse s.remote) :
    (epStr inet s).length ≤ 51 := by
  have hport := (u32ToStr_spec (v := s.remotePort.toNat)
    (Nat.le_of_lt_succ s.remotePort.toNat_lt)).2.2
  have haddr := h.length
  rw [epStr, List.length_append, List.length_cons]
  omega

/-- The address read back is the one written. -/
theorem restoreRemote_saStr {inet : Inet} {last : WarpRemote} (h : inet.Inverse last)
    (r : WarpRemote) :
    (restoreRemote inet (saStr inet last) r).1 = true ∧
      (restoreRemote inet (saStr inet last) r).2.ip = last.ip := by
  have hknown := h.known
  rw [saStr, restoreRemote, WarpRemote.ip, WarpRemote.ip]
  cases hfam : last.family with
  | inet =>
      dsimp only
      rw [h.inet4 hfam]
      exact ⟨rfl, rfl⟩
  | inet6 =>
      obtain ⟨h4, h6⟩ := h.inet6 hfam
      dsimp only
      rw [h4]
      dsimp only
      rw [h6]
      exact ⟨rfl, rfl⟩
  | other code =>
      rw [hfam] at hknown
      cases hknown

/-- What is written is a line that the reader gives back. -/
theorem reads_of_stateWrite {path : Bytes} {file : Option Bytes} {prefer6 : Bool} {ep : Bytes}
    {ok : Bool} (hw : (stateWrite path file prefer6 ep ok).1 = 0) (hlen : ep.length ≤ 63)
    (hline : newline ∉ ep) (hstr : 0 ∉ ep) :
    stateReadPrefer6 path (stateWrite path file prefer6 ep ok).2 = prefer6 ∧
      stateReadEp path (stateWrite path file prefer6 ep ok).2 stateEpMax = ep := by
  have hpath : path ≠ [] := by
    rintro rfl
    cases hw
  have hfile : (stateWrite path file prefer6 ep ok).2 = some (stateContent prefer6 ep) := by
    cases ok with
    | true => rw [stateWrite, if_neg hpath, if_pos rfl]
    | false =>
        rw [stateWrite, if_neg hpath] at hw
        cases hw
  rw [hfile]
  exact ⟨stateReadPrefer6_stateContent hpath prefer6 ep,
    stateReadEp_stateContent hpath prefer6 (Nat.lt_succ_of_le hlen) hline hstr⟩

/-- **What the state file stores is what the next run restores**, and a file that holds no
endpoint of the configured ports restores nothing. -/
theorem stateRestored {spec : List Char} {ports : PortSet} (hports : parsePortSet spec = some ports)
    (path : Bytes) (inet : Inet) : StateRestored path ports inet where
  reads := reads_of_stateWrite
  restores {file prefer6 ok last} hof hinv hw s := by
    obtain ⟨hds, hval, -⟩ := u32ToStr_spec (Nat.le_of_lt_succ last.remotePort.toNat_lt)
    have hplain : ∀ c ∈ u32ToStr last.remotePort.toNat, c ≠ newline ∧ c ≠ 0 := by
      intro c hc
      have hc := hds c hc
      refine ⟨?_, ?_⟩ <;> rintro rfl <;> exact absurd hc.1 (by decide)
    have hline : newline ∉ epStr inet last := by
      rw [epStr, List.mem_append, List.mem_cons, not_or, not_or]
      exact ⟨fun h => (hplain _ h).1 rfl, by decide, hinv.line⟩
    have hstr : 0 ∉ epStr inet last := by
      rw [epStr, List.mem_append, List.mem_cons, not_or, not_or]
      exact ⟨fun h => (hplain _ h).2 rfl, by decide, hinv.str⟩
    have hlen : (epStr inet last).length ≤ 63 := (length_epStr hinv).trans (by decide)
    have hep := (reads_of_stateWrite hw hlen hline hstr).2
    obtain ⟨hok, hip⟩ := restoreRemote_saStr hinv s.remote
    have hrun := warpRestore_of_digits inet hep hds hval (hof.pos hports) hof s
    rw [if_pos hok] at hrun
    intro s'
    rw [show s' = _ from hrun]
    exact ⟨UInt16.ofNat_toNat, hip, rfl, rfl⟩
  outside {file ds text} hep hds hno := by
    refine warpRestore_of_no_port fun ds' text' hep' hds' => ?_
    obtain ⟨rfl, -⟩ :=
      Text.append_cons_inj (space_notMem hds') (space_notMem hds) (hep'.symm.trans hep)
    exact hno
  malformed {file} hno s := by
    by_cases hport : ∃ ds text, stateReadEp path file stateEpMax = ds ++ 32 :: text ∧
        (∀ c ∈ ds, IsPortDigit c) ∧ PortOf ports (digitsFrom 0 ds)
    · obtain ⟨ds, text, hep, hds, hof⟩ := hport
      have hrun := warpRestore_of_digits inet hep hds rfl (hof.pos hports) hof s
      rcases restoreRemote_spec inet text s.remote with ⟨-, hreads⟩ | ⟨-, addr4, addr6, hr, hclean⟩
      · exact absurd ⟨ds, text, hep, hds, hreads⟩ hno
      · rw [hr] at hrun
        refine ⟨addr4, addr6, hrun, fun hc => ?_⟩
        obtain ⟨h4, h6⟩ := hclean hc
        rw [h4, h6] at hrun
        exact hrun
    · have hrun : s.warpRestore path file ports inet = s :=
        warpRestore_of_no_port (fun ds text hep hds hof => hport ⟨ds, text, hep, hds, hof⟩) s
      exact ⟨s.remote.addr4, s.remote.addr6, hrun, fun _ => hrun⟩

/-! ### An endpoint -/

/-- ASCII text. -/
def ascii (s : String) : Bytes := s.toList.map fun c => .ofNat c.toNat

/-- `inet_pton` and `inet_ntop` on one address. -/
def inetOne : Inet where
  pton4 text := if text = ascii "1.1.1.1" then some #v[1, 1, 1, 1] else none
  left4 _ a := a
  pton6 _ := none
  left6 _ a := a
  ntop4 _ := ascii "1.1.1.1"
  ntop6 _ := ascii "::1"

/-- `AWG_REMOTE` names one port. -/
def port443 : PortSet := ⟨[.single 443], 1, rfl⟩

/-- A proxy on that port of that address. -/
def warpLast : WarpStart := ⟨⟨.inet, #v[1, 1, 1, 1], .replicate 16 0, 16⟩, 443, true, []⟩

/-- A proxy before the file is read. -/
def warpFirst : WarpStart := ⟨⟨.other 0, .replicate 4 0, .replicate 16 0, 0⟩, 443, false, []⟩

theorem stateRestored_one :
    epStr inetOne warpLast = ascii "443 1.1.1.1" ∧
      (warpFirst.warpRestore [47]
        (stateWrite [47] none false (epStr inetOne warpLast) true).2 port443 inetOne).epDisk =
          epStr inetOne warpLast := by
  have hinv : inetOne.Inverse warpLast.remote :=
    ⟨by decide, by decide, by decide, rfl, fun _ => rfl, nofun⟩
  have hports : parsePortSet ['4', '4', '3'] = some port443 := rfl
  exact ⟨rfl, ((stateRestored hports [47] inetOne).restores ⟨by decide, rfl⟩ hinv rfl
    warpFirst).2.2.2⟩

/-- The digits of a port behind so many zeros that the buffer of the reader ends where the
address does. -/
def longDigits : Bytes := List.replicate 52 48 ++ ascii "443"

/-- What follows the first 63 bytes of a line is not looked at. -/
theorem warpRestore_long_line :
    ¬ IsEndpoint inetOne (longDigits ++ 32 :: ascii "1.1.1.1x") ∧
      (warpFirst.warpRestore [47]
        (some (52 :: 10 :: (longDigits ++ 32 :: ascii "1.1.1.1x") ++ [10])) port443
          inetOne).remote = warpLast.remote := by
  have hdigits : ∀ c ∈ longDigits, IsPortDigit c := by decide +kernel
  constructor
  · rintro ⟨ds, text, hline, hds, hreads⟩
    obtain ⟨-, rfl⟩ :=
      Text.append_cons_inj (space_notMem hds) (space_notMem hdigits) hline.symm
    rcases hreads with h4 | h6
    · exact h4 rfl
    · exact h6 rfl
  · have hep : stateReadEp [47]
        (some (52 :: 10 :: (longDigits ++ 32 :: ascii "1.1.1.1x") ++ [10])) stateEpMax =
          longDigits ++ 32 :: ascii "1.1.1.1" := by decide +kernel
    have hport : digitsFrom 0 longDigits = 443 := by decide +kernel
    rw [warpRestore_of_digits inetOne hep hdigits hport (by decide) ⟨by decide, rfl⟩]
    rfl

end AwgProxy
