import AwgProxy.PortSet

/-!
# The Address of the Server

`AWG_REMOTE` is written by the configurator, from the endpoint of a `.conf` and an optional
band of ports (`remoteEndpoint`), and read by the proxy (`parse_host_ports`). The two cut
host and ports apart by rules of their own, and the configurator checks the port of an
endpoint with a conversion that also takes spaces, signs, fractions and other radices.

* `splitHost_cases` — the two ways in which the proxy cuts a text.
* `isValidEndpoint_cases` — the two forms of an endpoint the configurator accepts.
* `readsAsMeant_iff` — an accepted endpoint reaches the proxy as meant if and only if it is
  spelled plainly (`PlainSpelling`).
-/

namespace AwgProxy

open Text hiding trim trim_trim exists_eq_trim

/-! ### The proxy -/

/-- The number of bytes of a text. -/
def byteLength (s : List Char) : ℕ :=
  (s.map Char.utf8Size).sum

/-- Where `split_host_port` cuts: the host and what follows the colon. `inetPton` is what
`inet_pton` answers for an IPv6 literal. -/
def splitHost (inetPton : List Char → Bool) : List Char → Option (List Char × List Char)
  | '[' :: hstart =>
      match splitFirst? ']' hstart with
      | some (host, ':' :: pstr) => some (host, pstr)
      | _ => none
  | s => if inetPton s then none else splitLast? ':' s

/-- `split_host_port`. -/
def splitHostPort (inetPton : List Char → Bool) (s : List Char) (hostmax : ℕ) :
    Option (List Char × List Char) :=
  match splitHost inetPton s with
  | none => none
  | some (host, pstr) =>
      if hostmax ≤ byteLength host then none
      else if pstr = [] then none
      else some (host, pstr)

/-- `parse_host_ports`. -/
def parseHostPorts (inetPton : List Char → Bool) (s : List Char) (hostmax : ℕ) :
    Option (List Char × PortSet) :=
  match splitHostPort inetPton s hostmax with
  | none => none
  | some (host, pstr) => (parsePortSet pstr).map fun ps => (host, ps)

/-- The room for the host, `sizeof(p->remote_host)`. -/
abbrev remoteHostMax : ℕ := 256

section

variable {inetPton : List Char → Bool} {s host pstr : List Char} {hostmax : ℕ}

/-- The proxy cuts behind a bracket, or at the last colon. -/
theorem splitHost_cases (h : splitHost inetPton s = some (host, pstr)) :
    (s = '[' :: host ++ ']' :: ':' :: pstr ∧ ']' ∉ host) ∨
      (s.head? ≠ some '[' ∧ s = host ++ ':' :: pstr ∧ ':' ∉ pstr) := by
  unfold splitHost at h
  split at h
  next hstart =>
    split at h
    next hbracket =>
      cases h
      obtain ⟨rfl, hnot⟩ := splitFirst?_eq_some_iff.mp hbracket
      exact Or.inl ⟨rfl, hnot⟩
    next => cases h
  next hopen =>
    split_ifs at h
    obtain ⟨rfl, hnot⟩ := splitLast?_eq_some_iff.mp h
    refine Or.inr ⟨fun hhead => ?_, rfl, hnot⟩
    obtain ⟨r, hr⟩ := List.head?_eq_some_iff.mp hhead
    exact hopen r hr

theorem splitHost_of_splitHostPort (h : splitHostPort inetPton s hostmax = some (host, pstr)) :
    splitHost inetPton s = some (host, pstr) := by
  unfold splitHostPort at h
  split at h
  next => cases h
  next hcut =>
    split_ifs at h
    rw [hcut, h]

theorem splitHostPort_of_splitHost (h : splitHost inetPton s = some (host, pstr))
    (hlen : byteLength host < hostmax) (hpstr : pstr ≠ []) :
    splitHostPort inetPton s hostmax = some (host, pstr) := by
  simp [splitHostPort, h, Nat.not_le.mpr hlen, hpstr]

/-- The form with brackets. -/
theorem splitHost_bracket (hhost : ']' ∉ host) :
    splitHost inetPton ('[' :: host ++ ']' :: ':' :: pstr) = some (host, pstr) := by
  simp [splitHost, splitFirst?_append hhost]

/-- The form without. -/
theorem splitHost_last (hopen : s.head? ≠ some '[') (hpton : inetPton s = false) :
    splitHost inetPton s = splitLast? ':' s := by
  unfold splitHost
  split
  next => simp at hopen
  next => simp [hpton]

end

/-! ### The configurator -/

namespace Configurator

open Ecma

/-- `isValidIP`. -/
def isValidIP (s : List Char) : Bool :=
  match s.splitOn '.' with
  | [a, b, c, d] =>
      [a, b, c, d].all fun g => isDigits 1 3 g && !(Number.finite 255).lt (number g)
  | _ => false

/-- The number of matches of `/::/g`. -/
def countDoubleColon : List Char → ℕ
  | [] => 0
  | [_] => 0
  | c :: d :: s =>
      if c = ':' ∧ d = ':' then countDoubleColon s + 1 else countDoubleColon (d :: s)

/-- `/^[0-9a-fA-F]{1,4}$/`. -/
def isHexGroup (g : List Char) : Bool :=
  1 ≤ g.length && g.length ≤ 4 && g.all (Ecma.hexVal · < 16)

/-- The loop of `isIPv6Literal`. -/
def isIPv6Groups : List (List Char) → Bool
  | [] => true
  | [g] => g = [] || if '.' ∈ g then isValidIP g else isHexGroup g
  | g :: gs => (g = [] || isHexGroup g) && isIPv6Groups gs

/-- `replace(/^\[/, '')`. -/
def stripOpen : List Char → List Char
  | '[' :: s => s
  | s => s

/-- `replace(/\]$/, '')`. -/
def stripClose (s : List Char) : List Char :=
  if s.getLast? = some ']' then s.dropLast else s

/-- `isIPv6Literal`. -/
def isIPv6Literal (s : List Char) : Bool :=
  let s := stripClose (stripOpen (trim s))
  let groups := s.splitOn ':'
  if s = [] ∨ ':' ∉ s then false
  else if 1 < countDoubleColon s then false
  else if groups.length < 3 ∨ 8 < groups.length then false
  else isIPv6Groups groups && (0 < countDoubleColon s || groups.length = 8)

/-- The groups of `^\[([^\]]+)\]:(\d+)$`. -/
def bracketForm? : List Char → Option (List Char × List Char)
  | '[' :: s =>
      match splitFirst? ']' s with
      | some (a, ':' :: p) => if a ≠ [] ∧ p ≠ [] ∧ allDigits p then some (a, p) else none
      | _ => none
  | _ => none

/-- `isValidEndpoint`. -/
def isValidEndpoint (e : List Char) : Bool :=
  let s := trim e
  match bracketForm? s with
  | some (m₁, m₂) =>
      isIPv6Literal m₁ && (Number.finite 0).lt (number m₂) && (number m₂).le (.finite 65535)
  | none =>
      match splitLast? ':' s with
      | none => false
      | some (head, port) =>
          -- a colon before the last one, or nothing before it
          if ':' ∈ head ∨ head.length < 1 then false
          else (Number.finite 0).lt (number port) && (number port).le (.finite 65535)

/-- `endpointHost`. -/
def endpointHost (e : List Char) : List Char :=
  let s := trim e
  match bracketForm? s with
  | some (m₁, _) => m₁
  | none =>
      match splitLast? ':' s with
      | some (head, port) => if port ≠ [] ∧ allDigits port then head else s
      | none => s

/-- `endpointJoin`. -/
def endpointJoin (host port : List Char) : List Char :=
  let h := trim host
  let h := if isIPv6Literal h && h.head? ≠ some '[' then '[' :: h ++ [']'] else h
  h ++ ':' :: port

/-- `endpointWithPorts`. -/
def endpointWithPorts (endpoint spec : List Char) : List Char :=
  let host := endpointHost endpoint
  if host = [] then endpoint else endpointJoin host spec

/-- `remoteEndpoint`, with the band it finds. -/
def remoteEndpoint (endpoint spec : List Char) : List Char :=
  if isValidPortSpec spec then endpointWithPorts endpoint spec else endpoint

/-! ### What is meant -/

/-- What stands before the port of an endpoint. -/
def rawHost (e : List Char) : List Char :=
  (splitLast? ':' (trim e)).elim [] Prod.fst

/-- The port of an endpoint, as it is written. -/
def rawPort (e : List Char) : List Char :=
  (splitLast? ':' (trim e)).elim [] Prod.snd

/-- No bracket. -/
def notBracket (c : Char) : Bool := c ≠ '[' && c ≠ ']'

/-- The host an endpoint names: without brackets, and without white space around it. -/
def hostOf (e : List Char) : List Char :=
  trim ((rawHost e).filter notBracket)

/-- The ports an endpoint and a band name: those of the band, or the one the configurator
takes the endpoint's port for. -/
def PortsMeant (e spec : List Char) (xs : List PortRange) : Prop :=
  if isValidPortSpec spec then PortList spec xs
  else ∃ v : ℕ, number (rawPort e) = .finite v ∧ xs = [.single v]

/-- The proxy accepts what the configurator writes, and finds the host and the ports that
are meant. -/
def ReadsAsMeant (inetPton : List Char → Bool) (e spec : List Char) : Prop :=
  ∃ ps, parseHostPorts inetPton (cString (remoteEndpoint e spec)) remoteHostMax =
      some (hostOf e, ps) ∧ PortsMeant e spec ps.r

/-- A host without brackets and without white space around it. -/
structure PlainHost (h : List Char) : Prop where
  /-- Nothing to trim. -/
  trimmed : trim h = h
  /-- No bracket. -/
  bare : ∀ c ∈ h, notBracket c = true

/-- The host as it gets into `AWG_REMOTE`: with a band it is trimmed, also between its
brackets. -/
def writtenHost (e : List Char) (band : Bool) : List Char :=
  if band then
    match bracketForm? (trim e) with
    | some (a, _) => '[' :: trim a ++ [']']
    | none => trim (rawHost e)
  else rawHost e

/-- An endpoint in the plain spelling: decimal digits as the port, a host with no bracket
but an enclosing pair, and no white space where the configurator leaves it. -/
structure PlainSpelling (e spec : List Char) : Prop where
  /-- A C string has no NUL inside. -/
  noNul : '\x00' ∉ e
  /-- The port is written in digits. -/
  digits : allDigits (rawPort e) = true
  /-- Without a band the endpoint is written as it stands. -/
  trimmed : isValidPortSpec spec = false → trim e = e
  /-- The host, in brackets or not. -/
  host : PlainHost (writtenHost e (isValidPortSpec spec)) ∨
    ∃ a, writtenHost e (isValidPortSpec spec) = '[' :: a ++ [']'] ∧ PlainHost a

/-! ### Plain hosts -/

theorem PlainHost.hostOf_eq {h : List Char} (hh : PlainHost h) :
    trim (h.filter notBracket) = h := by
  rw [List.filter_eq_self.mpr hh.bare, hh.trimmed]

theorem plainHost_hostOf (e : List Char) : PlainHost (hostOf e) where
  trimmed := trim_trim _
  bare := fun c hc => by simpa using List.of_mem_filter (mem_of_mem_trim hc)

/-- Brackets around a host do not change it. -/
theorem filter_brackets (a : List Char) :
    ('[' :: a ++ [']']).filter notBracket = a.filter notBracket := by
  have hopen : notBracket '[' = false := rfl
  have hclose : notBracket ']' = false := rfl
  simp [hopen, hclose]

/-! ### IPv6 literals -/

/-- An IPv6 literal has two colons. -/
theorem two_le_count_of_isIPv6Literal {s : List Char} (h : isIPv6Literal s = true) :
    2 ≤ s.count ':' := by
  have hsub : (stripClose (stripOpen (trim s))).Sublist s := by
    have hopen : (stripOpen (trim s)).Sublist (trim s) := by
      unfold stripOpen
      split
      next h =>
        rw [h]
        exact List.sublist_cons_self _ _
      next => exact List.Sublist.refl _
    have hclose : (stripClose (stripOpen (trim s))).Sublist (stripOpen (trim s)) := by
      unfold stripClose
      split
      · exact List.dropLast_sublist _
      · exact List.Sublist.refl _
    exact hclose.trans (hopen.trans (trim_sublist s))
  have hlen : ¬((stripClose (stripOpen (trim s))).splitOn ':').length < 3 := by
    intro hlt
    simp [isIPv6Literal, hlt] at h
  rw [length_splitOn] at hlen
  have hcount := hsub.count_le ':'
  omega

/-- A text with one colon is no IPv6 literal. -/
theorem not_isIPv6Literal_of_one {a b : List Char} (ha : ':' ∉ a) (hb : ':' ∉ b) :
    isIPv6Literal (a ++ ':' :: b) = false := by
  by_contra h
  have htwo := two_le_count_of_isIPv6Literal (Bool.not_eq_false _ ▸ h)
  simp [List.count_eq_zero_of_not_mem ha, List.count_eq_zero_of_not_mem hb] at htwo

theorem not_isIPv6Literal_of_notMem {a : List Char} (ha : ':' ∉ a) : isIPv6Literal a = false := by
  by_contra h
  have htwo := two_le_count_of_isIPv6Literal (Bool.not_eq_false _ ▸ h)
  simp [List.count_eq_zero_of_not_mem ha] at htwo

theorem isIPv6Literal_trim (s : List Char) : isIPv6Literal (trim s) = isIPv6Literal s := by
  simp only [isIPv6Literal, trim_trim]

/-! ### The forms of an endpoint -/

/-- An accepted endpoint: what stands before the port, and the port. -/
structure EndpointParts (e h p : List Char) : Prop where
  /-- Trimmed, it is the two with a colon between them. -/
  eq : trim e = h ++ ':' :: p
  /-- That colon is the last. -/
  colon : ':' ∉ p
  /-- The port is converted to a number in range. -/
  low : (Number.finite 0).lt (number p) = true
  high : (number p).le (.finite 65535) = true
  /-- An IPv6 literal in brackets, or a host without a colon. -/
  form : (∃ a, bracketForm? (trim e) = some (a, p) ∧ h = '[' :: a ++ [']'] ∧ ']' ∉ a ∧ a ≠ [] ∧
      allDigits p = true ∧ isIPv6Literal a = true) ∨
    (bracketForm? (trim e) = none ∧ ':' ∉ h ∧ h ≠ [])

theorem bracketForm?_eq_some {s a p : List Char} (h : bracketForm? s = some (a, p)) :
    s = '[' :: a ++ ']' :: ':' :: p ∧ ']' ∉ a ∧ a ≠ [] ∧ p ≠ [] ∧ allDigits p = true := by
  unfold bracketForm? at h
  split at h
  next =>
    split at h
    next hcut =>
      split_ifs at h with hgroups
      obtain ⟨rfl, rfl⟩ := Prod.mk.inj (Option.some.inj h)
      obtain ⟨rfl, hnot⟩ := splitFirst?_eq_some_iff.mp hcut
      exact ⟨rfl, hnot, hgroups⟩
    next => cases h
  next => cases h

/-- There is no colon among digits. -/
theorem colon_notMem_of_allDigits {p : List Char} (h : allDigits p = true) : ':' ∉ p := by
  intro hc
  cases allDigits_iff.mp h ':' hc

/-- What the configurator accepts has one of the two forms. -/
theorem isValidEndpoint_cases {e : List Char} (h : isValidEndpoint e = true) :
    ∃ host p, EndpointParts e host p := by
  simp only [isValidEndpoint] at h
  split at h
  next a p hform =>
    obtain ⟨heq, hnot, hne, -, hdig⟩ := bracketForm?_eq_some hform
    simp only [Bool.and_eq_true] at h
    exact ⟨'[' :: a ++ [']'], p, by simpa using heq, colon_notMem_of_allDigits hdig, h.1.2, h.2,
      Or.inl ⟨a, hform, rfl, hnot, hne, hdig, h.1.1⟩⟩
  next hform =>
    split at h
    next => cases h
    next host p hcut =>
      obtain ⟨heq, hcolon⟩ := splitLast?_eq_some_iff.mp hcut
      split_ifs at h with hhead
      simp only [not_or, Nat.lt_one_iff, List.length_eq_zero_iff] at hhead
      simp only [Bool.and_eq_true] at h
      exact ⟨host, p, heq, hcolon, h.1, h.2, Or.inr ⟨hform, hhead⟩⟩

namespace EndpointParts

variable {e h p : List Char}

theorem rawHost_eq (hp : EndpointParts e h p) : rawHost e = h := by
  rw [rawHost, hp.eq, splitLast?_append hp.colon]
  rfl

theorem rawPort_eq (hp : EndpointParts e h p) : rawPort e = p := by
  rw [rawPort, hp.eq, splitLast?_append hp.colon]
  rfl

theorem hostOf_eq (hp : EndpointParts e h p) : hostOf e = trim (h.filter notBracket) := by
  rw [hostOf, hp.rawHost_eq]

theorem number_ne_nan (hp : EndpointParts e h p) : number p ≠ .nan := by
  intro hnan
  have hlow := hp.low
  rw [hnan] at hlow
  cases hlow

theorem port_ne_nil (hp : EndpointParts e h p) : p ≠ [] := by
  rintro rfl
  have hzero : number [] = .finite 0 := rfl
  have hlow := hp.low
  simp [hzero, Number.lt] at hlow

/-- A host without a colon gives a host without one. -/
theorem colon_notMem_hostOf (hp : EndpointParts e h p) (hcolon : ':' ∉ h) : ':' ∉ hostOf e := by
  rw [hp.hostOf_eq]
  exact fun hmem => hcolon (List.mem_of_mem_filter ((trim_sublist _).subset hmem))

/-- The text of an endpoint, with what is trimmed from it. -/
theorem exists_eq (hp : EndpointParts e h p) :
    ∃ x y, (∀ c ∈ x, isSpace c = true) ∧ (∀ c ∈ y, isSpace c = true) ∧
      e = x ++ (h ++ ':' :: (p ++ y)) := by
  obtain ⟨x, y, hx, hy, he⟩ := exists_eq_trim e
  refine ⟨x, y, hx, hy, ?_⟩
  rw [hp.eq] at he
  simpa using he

end EndpointParts

/-! ### The port -/

/-- A number the proxy would not stop at is written in digits. -/
theorem portNum_of_parsePortSet_cString {p : List Char} {ps : PortSet} (hp : number p ≠ .nan)
    (h : parsePortSet (cString p) = some ps) : ∃ v, PortNum p v ∧ ps.r = [.single v] := by
  have hlist := portList_of_parsePortSet h
  rcases hlist.digits_or with ⟨v, hnum, hps⟩ | ⟨ds, c, r, hne, hds, hc, hcut⟩
  · rcases eq_cString_or p with heq | ⟨r, heq⟩
    · rw [← heq] at hnum
      exact ⟨v, hnum, hps⟩
    · rw [heq] at hp
      exact absurd (number_eq_nan_of_digits hnum.ne_nil hnum.digits rfl) hp
  · have hcont : continues c = false := by
      rcases hc with rfl | rfl <;> rfl
    rcases eq_cString_or p with heq | ⟨r', heq⟩
    · rw [heq, hcut] at hp
      exact absurd (number_eq_nan_of_digits hne hds hcont) hp
    · rw [heq, hcut, List.append_assoc] at hp
      exact absurd (number_eq_nan_of_digits hne hds hcont) hp

/-- Digits that convert to a number in range are read as that number. -/
theorem EndpointParts.parsePortSet_digits {e h p : List Char} (hp : EndpointParts e h p)
    (hdig : allDigits p = true) :
    ∃ (v : ℕ) (ps : PortSet), number p = .finite v ∧ parsePortSet p = some ps ∧
      ps.r = [.single v] := by
  have hds := allDigits_iff.mp hdig
  have hnum := number_digits hp.port_ne_nil hds
  have hlow := hp.low
  have hhigh := hp.high
  rw [hnum] at hlow hhigh
  have hpos : 0 < digitsVal p := (lt_natNumber_iff (by norm_num)).mp (by exact_mod_cast hlow)
  have hle : digitsVal p ≤ 65535 := (natNumber_le_iff (by norm_num)).mp (by exact_mod_cast hhigh)
  have hlist : PortList p [.single (digitsVal p)] :=
    .last (.single ⟨hp.port_ne_nil, hds, rfl, hpos, hle⟩)
  refine ⟨digitsVal p, _, ?_, parsePortSet_eq_some_iff.mpr ⟨_, hlist, by simp, rfl⟩, ?_⟩
  · rw [hnum, natNumber_of_lt (by omega)]
  · rw [foldl_push_r]
    rfl

/-! ### From the reading to the spelling -/

section

variable {inetPton : List Char → Bool} {e spec h p host pstr : List Char} {ps : PortSet}

theorem exists_of_readsAsMeant (h : ReadsAsMeant inetPton e spec) :
    ∃ pstr ps, splitHost inetPton (cString (remoteEndpoint e spec)) = some (hostOf e, pstr) ∧
      parsePortSet pstr = some ps ∧ PortsMeant e spec ps.r := by
  obtain ⟨ps, hread, hports⟩ := h
  unfold parseHostPorts at hread
  split at hread
  next => cases hread
  next host pstr hcut =>
    obtain ⟨ps', hps', heq⟩ := Option.map_eq_some_iff.mp hread
    obtain ⟨rfl, rfl⟩ := Prod.mk.inj heq
    exact ⟨pstr, ps', splitHost_of_splitHostPort hcut, hps', hports⟩

/-- A host that is read from a text is part of it. -/
theorem mem_of_splitHost (hcut : splitHost inetPton p = some (host, pstr)) {c : Char}
    (hc : c ∈ host) : c ∈ p := by
  rcases splitHost_cases hcut with ⟨rfl, -⟩ | ⟨-, rfl, -⟩
  · simp [hc]
  · simp [hc]

/-- No colon or bracket is in a list of ports. -/
theorem notMem_of_parsePortSet (h : parsePortSet pstr = some ps) {c : Char}
    (hdig : c.isDigit = false) (hdash : c ≠ '-') (hcomma : c ≠ ',') : c ∉ pstr := by
  intro hc
  rcases (portList_of_parsePortSet h).chars c hc with h | h | h
  · rw [h] at hdig
    cases hdig
  · exact hdash h
  · exact hcomma h

/-- Where the proxy cuts behind a host with white space in front of it: nowhere, unless
there is none. -/
theorem splitHost_of_raw {x q : List Char} (hx : ∀ c ∈ x, isSpace c = true) (hq : ':' ∉ q)
    (hform : (∃ a, h = '[' :: a ++ [']'] ∧ ']' ∉ a) ∨ (':' ∉ h ∧ ':' ∉ host))
    (hhost : PlainHost host)
    (hcut : splitHost inetPton (x ++ (h ++ ':' :: q)) = some (host, pstr)) :
    x = [] ∧ pstr = q ∧ (h = host ∨ h = '[' :: host ++ [']']) := by
  rcases splitHost_cases hcut with ⟨heq, hclose⟩ | ⟨-, heq, hcolon⟩
  · have hnil : x = [] := by
      cases x with
      | nil => rfl
      | cons c x =>
          have hspace := hx c (by simp)
          rw [(List.cons.inj heq).1] at hspace
          cases hspace
    subst hnil
    rw [List.nil_append] at heq
    refine ⟨rfl, ?_⟩
    rcases hform with ⟨a, rfl, ha⟩ | ⟨hh, hhost'⟩
    · have heq' : a ++ ']' :: ':' :: q = host ++ ']' :: ':' :: pstr := by simpa using heq
      obtain ⟨rfl, hrest⟩ := append_cons_inj ha hclose heq'
      exact ⟨(List.cons.inj hrest).2.symm, Or.inr rfl⟩
    · have heq' : h ++ ':' :: q = ('[' :: host ++ [']']) ++ ':' :: pstr := by simpa using heq
      obtain ⟨rfl, rfl⟩ := append_cons_inj hh (by simpa using hhost') heq'
      exact ⟨rfl, Or.inr rfl⟩
  · rw [← List.append_assoc] at heq
    obtain ⟨hxh, rfl⟩ := append_cons_inj_last hq hcolon heq
    have hnil : x = [] := eq_nil_of_trim_append hx (by rw [hxh]; exact hhost.trimmed)
    subst hnil
    exact ⟨rfl, rfl, Or.inl hxh⟩

/-- There is no NUL in a host that was read. -/
theorem EndpointParts.nul_notMem (hp : EndpointParts e h p) {u : List Char}
    (hcut : splitHost inetPton (cString u) = some (hostOf e, pstr)) : '\x00' ∉ h := by
  intro hnul
  refine nul_notMem_cString u (mem_of_splitHost hcut ?_)
  rw [hp.hostOf_eq]
  exact mem_trim rfl (List.mem_filter.mpr ⟨hnul, rfl⟩)

/-- The host of an endpoint, in the form `splitHost_of_raw` asks for. -/
theorem EndpointParts.rawForm (hp : EndpointParts e h p) :
    (∃ a, h = '[' :: a ++ [']'] ∧ ']' ∉ a) ∨ (':' ∉ h ∧ ':' ∉ hostOf e) := by
  rcases hp.form with ⟨a, -, rfl, ha, -⟩ | ⟨-, hcolon, -⟩
  · exact Or.inl ⟨a, rfl, ha⟩
  · exact Or.inr ⟨hcolon, hp.colon_notMem_hostOf hcolon⟩

/-- White space has no NUL in it. -/
theorem nul_notMem_of_isSpace {x : List Char} (hx : ∀ c ∈ x, isSpace c = true) : '\x00' ∉ x := by
  intro hc
  cases hx _ hc

/-- A port that is read to its end is written in digits, with nothing behind it. -/
theorem digits_of_parsePortSet {y : List Char} (hp : number p ≠ .nan)
    (hy : ∀ c ∈ y, isSpace c = true) (hps : parsePortSet (cString (p ++ y)) = some ps) :
    y = [] ∧ allDigits p = true ∧ '\x00' ∉ p := by
  by_cases hnul : '\x00' ∈ p
  · rw [cString_of_mem hnul] at hps
    obtain ⟨v, hnum, -⟩ := portNum_of_parsePortSet_cString hp hps
    cases hnum.digits _ hnul
  · rw [cString_append hnul, cString_eq_self (nul_notMem_of_isSpace hy)] at hps
    have hnil : y = [] := by
      cases y with
      | nil => rfl
      | cons c y =>
          have hspace := hy c (by simp)
          rcases (portList_of_parsePortSet hps).chars c (by simp) with hc | rfl | rfl
          · rw [isSpace_of_isDigit hc] at hspace
            cases hspace
          · cases hspace
          · cases hspace
    subst hnil
    rw [List.append_nil, ← cString_eq_self hnul] at hps
    obtain ⟨v, hnum, -⟩ := portNum_of_parsePortSet_cString hp hps
    exact ⟨rfl, allDigits_iff.mpr hnum.digits, hnul⟩

/-- The spelling of an endpoint that is read as meant, without a band. -/
theorem plainSpelling_of_endpoint (hp : EndpointParts e h p) (hband : isValidPortSpec spec = false)
    (hread : ReadsAsMeant inetPton e spec) : PlainSpelling e spec := by
  obtain ⟨pstr, ps, hcut, hps, -⟩ := exists_of_readsAsMeant hread
  rw [remoteEndpoint, hband, if_neg Bool.false_ne_true] at hcut
  have hnulh := hp.nul_notMem hcut
  obtain ⟨x, y, hx, hy, he⟩ := hp.exists_eq
  have hcstr : cString e = x ++ (h ++ ':' :: cString (p ++ y)) := by
    conv_lhs => rw [he]
    rw [cString_append (nul_notMem_of_isSpace hx), cString_append hnulh]
    simp [cString]
  have hcolon : ':' ∉ cString (p ++ y) := by
    intro hmem
    rcases List.mem_append.mp (mem_of_mem_cString hmem) with hmem | hmem
    · exact hp.colon hmem
    · cases hy _ hmem
  rw [hcstr] at hcut
  obtain ⟨rfl, rfl, hhost⟩ := splitHost_of_raw hx hcolon hp.rawForm (plainHost_hostOf e) hcut
  obtain ⟨rfl, hdig, hnulp⟩ := digits_of_parsePortSet hp.number_ne_nan hy hps
  have hself : trim e = e := by
    rw [hp.eq, he]
    simp
  refine ⟨?_, hp.rawPort_eq.symm ▸ hdig, fun _ => hself, ?_⟩
  · rw [← hself, hp.eq]
    simp [hnulh, hnulp]
  · rw [hband, writtenHost, if_neg Bool.false_ne_true, hp.rawHost_eq]
    rcases hhost with hhost | hhost
    · exact Or.inl (hhost.symm ▸ plainHost_hostOf e)
    · exact Or.inr ⟨hostOf e, hhost, plainHost_hostOf e⟩

/-- A list of ports has neither a NUL nor a colon nor a bracket in it. -/
theorem notMem_of_isValidPortSpec (hband : isValidPortSpec spec = true) :
    '\x00' ∉ spec ∧ ':' ∉ spec ∧ ']' ∉ spec := by
  obtain ⟨ps, hps, -⟩ := parsePortSet_of_isValidPortSpec hband
  exact ⟨notMem_of_parsePortSet hps rfl (by simp) (by simp),
    notMem_of_parsePortSet hps rfl (by simp) (by simp),
    notMem_of_parsePortSet hps rfl (by simp) (by simp)⟩

/-- A host that is no IPv6 literal is joined as it stands. -/
theorem endpointJoin_of_not (hno : isIPv6Literal h = false) :
    endpointJoin h spec = trim h ++ ':' :: spec := by
  simp [endpointJoin, isIPv6Literal_trim, hno]

/-- The text with a band, for an IPv6 literal in brackets. -/
theorem remoteEndpoint_bracket {a : List Char} (hband : isValidPortSpec spec = true)
    (hform : bracketForm? (trim e) = some (a, p)) (ha : a ≠ []) :
    remoteEndpoint e spec = endpointJoin a spec := by
  simp [remoteEndpoint, hband, endpointWithPorts, endpointHost, hform, ha]

/-- For any other host, behind which the port is written in digits. -/
theorem remoteEndpoint_digits (hp : EndpointParts e h p) (hband : isValidPortSpec spec = true)
    (hform : bracketForm? (trim e) = none) (hh : ':' ∉ h) (hne : h ≠ [])
    (hdig : allDigits p = true) : remoteEndpoint e spec = trim h ++ ':' :: spec := by
  have hhost : endpointHost e = h := by
    simp only [endpointHost, hform]
    simp only [hp.eq, splitLast?_append hp.colon, if_pos (And.intro hp.port_ne_nil hdig)]
  rw [remoteEndpoint, if_pos hband, endpointWithPorts, hhost]
  simp only [if_neg hne]
  exact endpointJoin_of_not (not_isIPv6Literal_of_notMem hh)

/-- Where it is not, the band goes behind the port. -/
theorem remoteEndpoint_not_digits (hp : EndpointParts e h p)
    (hband : isValidPortSpec spec = true) (hform : bracketForm? (trim e) = none) (hh : ':' ∉ h)
    (hdig : allDigits p = false) :
    remoteEndpoint e spec = h ++ ':' :: (p ++ ':' :: spec) := by
  have hhost : endpointHost e = h ++ ':' :: p := by
    simp only [endpointHost, hform]
    simp [hp.eq, splitLast?_append hp.colon, hdig]
  have htrim : trim (h ++ ':' :: p) = h ++ ':' :: p := by
    rw [← hp.eq, trim_trim]
  rw [remoteEndpoint, if_pos hband, endpointWithPorts, hhost]
  simp only [List.append_eq_nil_iff, List.cons_ne_nil, and_false, if_false]
  rw [endpointJoin_of_not (not_isIPv6Literal_of_one hh hp.colon), htrim]
  simp

/-- A band behind a port that is not written in digits is not read as meant. -/
theorem allDigits_of_band (hp : EndpointParts e h p) (hband : isValidPortSpec spec = true)
    (hform : bracketForm? (trim e) = none) (hh : ':' ∉ h)
    (hcut : splitHost inetPton (cString (remoteEndpoint e spec)) = some (hostOf e, pstr))
    (hps : parsePortSet pstr = some ps) : allDigits p = true := by
  obtain ⟨hnulspec, hcolonspec, -⟩ := notMem_of_isValidPortSpec hband
  have hnulh := hp.nul_notMem hcut
  have hhostcolon := hp.colon_notMem_hostOf hh
  by_contra hdig
  rw [remoteEndpoint_not_digits hp hband hform hh (Bool.not_eq_true _ ▸ hdig),
    cString_append hnulh] at hcut
  have hcons : ∀ q, cString (':' :: q) = ':' :: cString q := fun q => by simp [cString]
  rw [hcons] at hcut
  by_cases hnulp : '\x00' ∈ p
  · rw [cString_of_mem hnulp] at hcut
    have hcolon : ':' ∉ cString p := fun hc => hp.colon (mem_of_mem_cString hc)
    obtain ⟨-, rfl, -⟩ := splitHost_of_raw (x := []) (by simp) hcolon hp.rawForm
      (plainHost_hostOf e) hcut
    obtain ⟨v, hnum, -⟩ := portNum_of_parsePortSet_cString hp.number_ne_nan hps
    cases hnum.digits _ hnulp
  · rw [cString_append hnulp, hcons, cString_eq_self hnulspec] at hcut
    rcases splitHost_cases hcut with ⟨heq, -⟩ | ⟨-, heq, hcolon⟩
    · have heq' : h ++ ':' :: (p ++ ':' :: spec) = ('[' :: hostOf e ++ [']']) ++ ':' :: pstr := by
        simpa using heq
      obtain ⟨-, rfl⟩ := append_cons_inj hh (by simpa using hhostcolon) heq'
      exact notMem_of_parsePortSet (c := ':') hps rfl (by simp) (by simp) (by simp)
    · rw [← List.cons_append, ← List.append_assoc] at heq
      obtain ⟨hhost, -⟩ := append_cons_inj_last hcolonspec hcolon heq
      exact hhostcolon (hhost ▸ by simp)

/-- The spelling of an endpoint that is read as meant with a band. -/
theorem plainSpelling_of_band (hp : EndpointParts e h p) (hband : isValidPortSpec spec = true)
    (hread : ReadsAsMeant inetPton e spec) : PlainSpelling e spec := by
  obtain ⟨pstr, ps, hcut, hps, -⟩ := exists_of_readsAsMeant hread
  obtain ⟨hnulspec, hcolonspec, hclosespec⟩ := notMem_of_isValidPortSpec hband
  have hnulh := hp.nul_notMem hcut
  -- no NUL in the endpoint once there is none in its port
  have hnul : allDigits p = true → '\x00' ∉ e := by
    intro hdig hmem
    have hmem' : '\x00' ∈ h ++ ':' :: p := hp.eq ▸ mem_trim rfl hmem
    rcases List.mem_append.mp hmem' with hmem' | hmem'
    · exact hnulh hmem'
    · rcases List.mem_cons.mp hmem' with hmem' | hmem'
      · cases hmem'
      · cases allDigits_iff.mp hdig _ hmem'
  rcases hp.form with ⟨a, hform, rfl, hclose, hne, hdig, hlit⟩ | ⟨hform, hh, hne⟩
  · have hclose' : ']' ∉ trim a := fun hc => hclose ((trim_sublist a).subset hc)
    have hnula : '\x00' ∉ trim a := fun hc => hnulh (by simp [(trim_sublist a).subset hc])
    have hlit' : isIPv6Literal (trim a) = true := by rw [isIPv6Literal_trim, hlit]
    rw [remoteEndpoint_bracket hband hform hne] at hcut
    have hplain : PlainHost (trim a) := by
      by_cases hopen : (trim a).head? = some '['
      · -- a second bracket at the front leaves the first one open
        have hjoin : endpointJoin a spec = trim a ++ ':' :: spec := by
          simp [endpointJoin, hopen]
        rw [hjoin, cString_eq_self (by simp [hnula, hnulspec])] at hcut
        rcases splitHost_cases hcut with ⟨heq, -⟩ | ⟨hhead, -⟩
        · have hmem : ']' ∈ trim a ++ ':' :: spec := by
            rw [heq]
            simp
          simp [hclose', hclosespec] at hmem
        · exact absurd (by simp [hopen]) hhead
      · have hjoin : endpointJoin a spec = ('[' :: trim a ++ [']']) ++ ':' :: spec := by
          simp [endpointJoin, hopen, hlit']
        rw [hjoin, cString_eq_self (by simp [hnula, hnulspec])] at hcut
        obtain ⟨-, -, hhost⟩ := splitHost_of_raw (x := []) (by simp) hcolonspec
          (Or.inl ⟨trim a, rfl, hclose'⟩) (plainHost_hostOf e) hcut
        rcases hhost with hhost | hhost
        · cases (plainHost_hostOf e).bare '[' (hhost ▸ by simp)
        · have heq : trim a = hostOf e := by simpa using hhost
          exact heq ▸ plainHost_hostOf e
    refine ⟨hnul hdig, hp.rawPort_eq.symm ▸ hdig, ?_, Or.inr ⟨trim a, ?_, hplain⟩⟩
    · intro hno
      exact absurd (hband.symm.trans hno) nofun
    · rw [writtenHost, if_pos hband, hform]
  · have hdig := allDigits_of_band hp hband hform hh hcut hps
    rw [remoteEndpoint_digits hp hband hform hh hne hdig] at hcut
    have hnult : '\x00' ∉ trim h := fun hc => hnulh ((trim_sublist h).subset hc)
    rw [cString_eq_self (by simp [hnult, hnulspec])] at hcut
    obtain ⟨-, -, hhost⟩ := splitHost_of_raw (x := []) (by simp) hcolonspec
      (Or.inr ⟨fun hc => hh ((trim_sublist h).subset hc), hp.colon_notMem_hostOf hh⟩)
      (plainHost_hostOf e) hcut
    refine ⟨hnul hdig, hp.rawPort_eq.symm ▸ hdig, ?_, ?_⟩
    · intro hno
      exact absurd (hband.symm.trans hno) nofun
    · rw [writtenHost, if_pos hband, hform]
      simp only [hp.rawHost_eq]
      rcases hhost with hhost | hhost
      · exact Or.inl (hhost ▸ plainHost_hostOf e)
      · exact Or.inr ⟨hostOf e, hhost, plainHost_hostOf e⟩

/-! ### From the spelling to the reading -/

/-- A plain host, in brackets or not, is what the proxy finds. -/
theorem splitHost_of_plain {w q : List Char}
    (hpton : ∀ s, inetPton s = true → isIPv6Literal s = true)
    (hw : PlainHost w ∨ ∃ a, w = '[' :: a ++ [']'] ∧ PlainHost a)
    (hcolon : PlainHost w → ':' ∉ w) (hq : ':' ∉ q) :
    splitHost inetPton (w ++ ':' :: q) = some (trim (w.filter notBracket), q) := by
  rcases hw with hw | ⟨a, rfl, ha⟩
  · have hopen : (w ++ ':' :: q).head? ≠ some '[' := by
      cases w with
      | nil => simp
      | cons c w =>
          intro hc
          have hbare := hw.bare c (by simp)
          rw [Option.some.inj hc] at hbare
          cases hbare
    have hno : inetPton (w ++ ':' :: q) = false := by
      by_contra hyes
      have hlit := hpton _ (Bool.not_eq_false _ ▸ hyes)
      rw [not_isIPv6Literal_of_one (hcolon hw) hq] at hlit
      cases hlit
    rw [splitHost_last hopen hno, splitLast?_append hq, hw.hostOf_eq]
  · have hclose : ']' ∉ a := fun hc => by cases ha.bare _ hc
    rw [filter_brackets, ha.hostOf_eq]
    simpa using splitHost_bracket hclose

/-- The host is the one that is written. -/
theorem hostOf_eq_writtenHost (hp : EndpointParts e h p) (band : Bool) :
    hostOf e = trim ((writtenHost e band).filter notBracket) := by
  cases band with
  | false => rfl
  | true =>
      simp only [writtenHost, if_true]
      rcases hp.form with ⟨a, hform, rfl, -⟩ | ⟨hform, -⟩
      · rw [hform, hp.hostOf_eq]
        simp only [filter_brackets, trim_filter_trim]
      · rw [hform]
        exact (trim_filter_trim notBracket (rawHost e)).symm

/-- The text that is written, for a plain spelling. -/
theorem remoteEndpoint_of_plain (hp : EndpointParts e h p) (hs : PlainSpelling e spec) :
    remoteEndpoint e spec = writtenHost e (isValidPortSpec spec) ++
      ':' :: (if isValidPortSpec spec then spec else p) := by
  cases hband : isValidPortSpec spec with
  | false =>
      have hself := hs.trimmed hband
      simp only [remoteEndpoint, hband, writtenHost, Bool.false_eq_true, if_false, hp.rawHost_eq]
      rw [← hp.eq, hself]
  | true =>
      have hhost := hs.host
      simp only [hband, writtenHost, if_true] at hhost ⊢
      rcases hp.form with ⟨a, hform, rfl, hclose, hne, -, hlit⟩ | ⟨hform, hh, hne⟩
      · rw [hform] at hhost ⊢
        have hplain : PlainHost (trim a) := by
          rcases hhost with hhost | ⟨b, heq, hb⟩
          · cases hhost.bare '[' (by simp)
          · have heq' : trim a = b := by simpa using heq
            exact heq' ▸ hb
        have hopen : (trim a).head? ≠ some '[' := by
          intro hc
          cases hplain.bare '[' (List.mem_of_mem_head? hc)
        rw [remoteEndpoint_bracket hband hform hne]
        simp [endpointJoin, hopen, isIPv6Literal_trim, hlit]
      · rw [hform, remoteEndpoint_digits hp hband hform hh hne (hp.rawPort_eq ▸ hs.digits)]
        simp only [hp.rawHost_eq]

/-- A plain host that is not in brackets has no colon. -/
theorem colon_notMem_writtenHost (hp : EndpointParts e h p) {band : Bool}
    (hw : PlainHost (writtenHost e band)) : ':' ∉ writtenHost e band := by
  cases band with
  | false =>
      simp only [writtenHost, Bool.false_eq_true, if_false, hp.rawHost_eq] at hw ⊢
      rcases hp.form with ⟨a, -, rfl, -⟩ | ⟨-, hh, -⟩
      · cases hw.bare '[' (by simp)
      · exact hh
  | true =>
      simp only [writtenHost, if_true] at hw ⊢
      rcases hp.form with ⟨a, hform, rfl, -⟩ | ⟨hform, hh, -⟩
      · rw [hform] at hw
        cases hw.bare '[' (by simp)
      · rw [hform, hp.rawHost_eq]
        exact fun hc => hh ((trim_sublist h).subset hc)

/-- There is no NUL in what is written. -/
theorem nul_notMem_writtenHost (hp : EndpointParts e h p) (hnul : '\x00' ∉ e) (band : Bool) :
    '\x00' ∉ writtenHost e band := by
  have hnulh : '\x00' ∉ h := by
    intro hc
    have hmem : '\x00' ∈ trim e := by
      rw [hp.eq]
      simp [hc]
    exact hnul ((trim_sublist e).subset hmem)
  cases band with
  | false =>
      simpa only [writtenHost, Bool.false_eq_true, if_false, hp.rawHost_eq] using hnulh
  | true =>
      simp only [writtenHost, if_true]
      rcases hp.form with ⟨a, hform, rfl, -⟩ | ⟨hform, -⟩
      · rw [hform]
        simp only [List.mem_append, List.mem_cons, List.not_mem_nil, not_or] at hnulh ⊢
        exact ⟨⟨by simp, fun hc => hnulh.1.2 ((trim_sublist a).subset hc)⟩, by simp⟩
      · rw [hform, hp.rawHost_eq]
        exact fun hc => hnulh ((trim_sublist h).subset hc)

/-- The ports that are meant are those the proxy reads. -/
theorem exists_ports_of_plain (hp : EndpointParts e h p) (hs : PlainSpelling e spec) :
    ∃ q ps, q = (if isValidPortSpec spec then spec else p) ∧ parsePortSet q = some ps ∧
      '\x00' ∉ q ∧ ':' ∉ q ∧ q ≠ [] ∧ PortsMeant e spec ps.r := by
  cases hband : isValidPortSpec spec with
  | true =>
      obtain ⟨ps, hps, hlist⟩ := parsePortSet_of_isValidPortSpec hband
      obtain ⟨hnul, hcolon, -⟩ := notMem_of_isValidPortSpec hband
      refine ⟨spec, ps, rfl, hps, hnul, hcolon, ?_, by simpa [PortsMeant, hband] using hlist⟩
      rintro rfl
      cases hps
  | false =>
      have hdig : allDigits p = true := hp.rawPort_eq ▸ hs.digits
      obtain ⟨v, ps, hv, hps, hr⟩ := hp.parsePortSet_digits hdig
      refine ⟨p, ps, rfl, hps, ?_, hp.colon, hp.port_ne_nil, ?_⟩
      · exact fun hc => by cases allDigits_iff.mp hdig _ hc
      · simp only [PortsMeant, hband, hp.rawPort_eq]
        exact ⟨v, hv, hr⟩

/-- A plain spelling is read as meant. -/
theorem readsAsMeant_of_plainSpelling (hpton : ∀ s, inetPton s = true → isIPv6Literal s = true)
    (hp : EndpointParts e h p) (hlen : byteLength (hostOf e) < remoteHostMax)
    (hs : PlainSpelling e spec) : ReadsAsMeant inetPton e spec := by
  obtain ⟨q, ps, hq, hps, hnul, hcolon, hne, hmeant⟩ := exists_ports_of_plain hp hs
  have htext := remoteEndpoint_of_plain hp hs
  rw [← hq] at htext
  have hnulw := nul_notMem_writtenHost hp hs.noNul (isValidPortSpec spec)
  have hcut := splitHost_of_plain (q := q) hpton hs.host (colon_notMem_writtenHost hp) hcolon
  rw [← hostOf_eq_writtenHost hp] at hcut
  refine ⟨ps, ?_, hmeant⟩
  rw [htext, cString_eq_self (by simp [hnulw, hnul]), parseHostPorts,
    splitHostPort_of_splitHost hcut hlen hne]
  simp [hps]

/-- The spelling of an endpoint that is read as meant. -/
theorem plainSpelling_of_readsAsMeant (haccept : isValidEndpoint e = true)
    (hread : ReadsAsMeant inetPton e spec) : PlainSpelling e spec := by
  obtain ⟨h, p, hp⟩ := isValidEndpoint_cases haccept
  cases hband : isValidPortSpec spec with
  | true => exact plainSpelling_of_band hp hband hread
  | false => exact plainSpelling_of_endpoint hp hband hread

end

/-- **The address is read as meant if and only if it is spelled plainly.** The two programs
agree on lists of ports, up to the five digits the configurator allows a number; of the
endpoints the configurator accepts, those in the plain spelling reach the proxy with the
host and the ports they name, with or without a band, and no others do. -/
theorem readsAsMeant_iff (inetPton : List Char → Bool)
    (hpton : ∀ s, inetPton s = true → isIPv6Literal s = true) :
    (∀ s, isValidPortSpec s = true → ∃ ps, parsePortSet (cString s) = some ps ∧ PortList s ps.r) ∧
      (∀ s ps, ShortNumbers s → parsePortSet (cString s) = some ps →
        (isValidPortSpec s = true ↔ '\x00' ∉ s)) ∧
      ∀ e spec, isValidEndpoint e = true → byteLength (hostOf e) < remoteHostMax →
        (ReadsAsMeant inetPton e spec ↔ PlainSpelling e spec) := by
  refine ⟨fun s hs => ?_, fun s ps hshort hps => ⟨fun hs => ?_, fun hnul => ?_⟩,
    fun e spec haccept hlen => ⟨plainSpelling_of_readsAsMeant haccept, fun hs => ?_⟩⟩
  · rw [cString_eq_self (notMem_of_isValidPortSpec hs).1]
    exact parsePortSet_of_isValidPortSpec hs
  · exact (notMem_of_isValidPortSpec hs).1
  · rw [cString_eq_self hnul] at hps
    exact isValidPortSpec_of_parsePortSet hps hshort
  · obtain ⟨h, p, hp⟩ := isValidEndpoint_cases haccept
    exact readsAsMeant_of_plainSpelling hpton hp hlen hs

/-- An endpoint with a host that has no colon, spelled plainly, is accepted. -/
theorem isValidEndpoint_of_digits {h p : List Char} (htrim : trim (h ++ ':' :: p) = h ++ ':' :: p)
    (hopen : h.head? ≠ some '[') (hh : ':' ∉ h) (hne : h ≠ []) (hpne : p ≠ [])
    (hdig : allDigits p = true) (hpos : 0 < digitsVal p) (hle : digitsVal p ≤ 65535) :
    isValidEndpoint (h ++ ':' :: p) = true := by
  have hform : bracketForm? (h ++ ':' :: p) = none := by
    unfold bracketForm?
    split
    next heq =>
      cases h with
      | nil => exact absurd rfl hne
      | cons c h => simp [(List.cons.inj heq).1] at hopen
    next => rfl
  have hnum := number_digits hpne (allDigits_iff.mp hdig)
  have hlow : (Number.finite 0).lt (natNumber (digitsVal p)) = true := by
    exact_mod_cast (lt_natNumber_iff (m := 0) (by norm_num)).mpr hpos
  have hhigh : (natNumber (digitsVal p)).le (.finite 65535) = true := by
    exact_mod_cast (natNumber_le_iff (m := 65535) (by norm_num)).mpr hle
  simp only [isValidEndpoint, htrim, hform,
    splitLast?_append (colon_notMem_of_allDigits hdig), hnum, hlow, hhigh]
  simp [hh, hne]

/-- A band of two ports. -/
theorem isValidPortSpec_twoPorts : isValidPortSpec "443,8080".toList = true := by
  have hfst : PortToken "443".toList (.single 443) :=
    .single ⟨by decide, allDigits_iff.mp rfl, by decide, by decide, by decide⟩
  have hsnd : PortToken "8080".toList (.single 8080) :=
    .single ⟨by decide, allDigits_iff.mp rfl, by decide, by decide, by decide⟩
  have hshort : ShortNumbers ("443".toList ++ ',' :: "8080".toList) :=
    (shortNumbers_append rfl).mpr
      ⟨shortNumbers_of_length (by decide), shortNumbers_of_length (by decide)⟩
  exact isValidPortSpec_iff.mpr ⟨⟨_, .cons hfst (.last hsnd), by decide⟩, hshort⟩

/-- A host name, with a band in place of its port. -/
theorem readsAsMeant_twoPorts :
    ReadsAsMeant isIPv6Literal "vpn.example.com:443".toList "443,8080".toList := by
  have haccept : isValidEndpoint ("vpn.example.com".toList ++ ':' :: "443".toList) = true :=
    isValidEndpoint_of_digits (by decide) (by decide) (by decide) (by decide) (by decide)
      (by decide) (by decide) (by decide)
  refine ((readsAsMeant_iff isIPv6Literal fun _ h => h).2.2 _ _ haccept (by decide)).mpr
    ⟨by decide, by decide, fun _ => by decide, Or.inl ?_⟩
  rw [isValidPortSpec_twoPorts]
  exact ⟨by decide, List.all_eq_true.mp rfl⟩

/-- The configurator takes a hexadecimal port for 443, the proxy does not start with it. -/
theorem not_readsAsMeant_hexPort :
    isValidEndpoint "vpn.example.com:0x1bb".toList = true ∧
      byteLength (hostOf "vpn.example.com:0x1bb".toList) < remoteHostMax ∧
      ¬ReadsAsMeant isIPv6Literal "vpn.example.com:0x1bb".toList [] := by
  have hnum : number "0x1bb".toList = .finite (443 : ℕ) :=
    (rfl : number "0x1bb".toList = natNumber 443).trans (natNumber_of_lt (n := 443) (by norm_num))
  have hform : bracketForm? (trim "vpn.example.com:0x1bb".toList) = none := by decide
  have hcut : splitLast? ':' (trim "vpn.example.com:0x1bb".toList) =
      some ("vpn.example.com".toList, "0x1bb".toList) := by decide
  refine ⟨?_, by decide, ?_⟩
  · simp only [isValidEndpoint, hform, hcut, hnum]
    rw [if_neg (by decide)]
    norm_num [Number.lt, Number.le]
  · rintro ⟨ps, hread, -⟩
    have hnone : parseHostPorts isIPv6Literal
        (cString (remoteEndpoint "vpn.example.com:0x1bb".toList [])) remoteHostMax = none := by
      decide
    rw [hnone] at hread
    cases hread

end Configurator

end AwgProxy
