import AwgProxy.EnvLines
import AwgProxy.Validate

/-!
# The File of a Client

The configurator hands out a hub's profile as a `.conf` for the client's app (`buildAwgConf`), and
reads one back that is pasted into the page (`parseConf`): sections, `Key = value` lines, and the
ports of the hub in a comment. Every other reader takes the comment for a comment.

* `parseLine_render`, `parseConf_confText` — what a line does when it is read back, and what a file
  of such lines says.
* `parseConf_plain` — what any text at all is read as could be written again.
* `parseConf_buildAwgConf_iff` — the file of a client is read back as it was written, all of it,
  exactly when its values fit into lines.
-/

namespace AwgProxy

namespace Configurator

open Ecma
open Text hiding trim trim_trim exists_eq_trim

/-! ### Reading a file -/

/-- The sections that are read. -/
inductive ConfSection
  | interface
  | peer
  deriving DecidableEq

/-- A section's line. -/
def ConfSection.line : ConfSection → String
  | .interface => "[Interface]"
  | .peer => "[Peer]"

/-- The object `parseConf` builds. -/
structure ConfFile where
  /-- `result.interface`. -/
  iface : List Char → Option (List Char)
  /-- `result.peer`. -/
  peer : List Char → Option (List Char)
  /-- `result.allowedPorts`. -/
  allowedPorts : Option (List Char)

/-- The object before the first line. -/
def ConfFile.empty : ConfFile := ⟨fun _ => none, fun _ => none, none⟩

/-- A piece without the `\r` in front of its `\n`. -/
def stripCr (s : List Char) : List Char :=
  if s.getLast? = some '\r' then s.dropLast else s

/-- `text.split(/\r?\n/)`. -/
def splitLines (text : List Char) : List (List Char) :=
  let pieces := text.splitOn '\n'
  pieces.dropLast.map stripCr ++ pieces.getLast?.toList

/-- What `.` does not match. -/
def isLineTerminator (c : Char) : Bool :=
  c == '\n' || c == '\r' || c.toNat == 0x2028 || c.toNat == 0x2029

/-- A text behind a prefix whose letters may be of either case. -/
def dropPrefixNoCase : List Char → List Char → Option (List Char)
  | [], s => some s
  | p :: ps, c :: s => if c.toLower = p.toLower then dropPrefixNoCase ps s else none
  | _ :: _, [] => none

/-- The ports of `/^[#;]\s*AllowedPorts\s*=\s*(.+)$/i`, trimmed. The line is trimmed, so what is
left behind the spaces is empty or ends in the group. -/
def allowedPorts? : List Char → Option (List Char)
  | [] => none
  | c :: s =>
      if c = '#' ∨ c = ';' then
        (dropPrefixNoCase "AllowedPorts".toList (s.dropWhile isSpace)).bind fun s =>
          match s.dropWhile isSpace with
          | '=' :: v =>
              let v := v.dropWhile isSpace
              if v = [] ∨ v.any isLineTerminator then none else some (trim v)
          | _ => none
      else none

/-- A value is set; `__proto__` is no property of its own. -/
def setKey (values : List Char → Option (List Char)) (key value : List Char) :
    List Char → Option (List Char) :=
  if key = "__proto__".toList then values else Function.update values key (some value)

/-- A value of the section. -/
def ConfFile.set (f : ConfFile) (key value : List Char) : ConfSection → ConfFile
  | .interface => { f with iface := setKey f.iface key value }
  | .peer => { f with peer := setKey f.peer key value }

/-- A line of the loop, with the section it is in. -/
def parseLine (st : ConfFile × Option ConfSection) (raw : List Char) :
    ConfFile × Option ConfSection :=
  let line := trim raw
  let f := (allowedPorts? line).elim st.1 fun ap => { st.1 with allowedPorts := some ap }
  if line = [] ∨ line.head? = some '#' ∨ line.head? = some ';' then (f, st.2)
  else if line = "[Interface]".toList then (f, some .interface)
  else if line = "[Peer]".toList then (f, some .peer)
  else
    match st.2, splitFirst? '=' line with
    | some sec, some (k, v) => (f.set (trim k) (trim v) sec, st.2)
    | _, _ => (f, st.2)

/-- `parseConf`. -/
def parseConf (text : List Char) : ConfFile :=
  ((splitLines text).foldl parseLine (.empty, none)).1

/-- The file as `validate` takes it: a key that is missing is falsy, as an empty one is. -/
def ConfFile.parsed (f : ConfFile) : Parsed where
  iface k := (f.iface k.text.toList).getD []
  peer k := (f.peer k.text.toList).getD []
  defaulted := []

theorem ConfFile.parsed_iface (f : ConfFile) (k : IfaceKey) :
    f.parsed.iface k = (f.iface k.text.toList).getD [] :=
  rfl

theorem ConfFile.parsed_peer (f : ConfFile) (k : PeerKey) :
    f.parsed.peer k = (f.peer k.text.toList).getD [] :=
  rfl

/-! ### Writing one -/

/-- `hubPorts`. -/
def hubPorts (awgPort : ℕ) (band : List Char) : List Char :=
  if band = [] then decimal awgPort else decimal awgPort ++ ',' :: band

/-- What a line of a file says. -/
inductive ConfLine
  | blank
  | section (sec : ConfSection)
  | entry (key : String) (value : List Char)
  | ports (value : List Char)

/-- A line, as it is written. -/
def ConfLine.render : ConfLine → List Char
  | .blank => []
  | .section sec => sec.line.toList
  | .entry key value => key.toList ++ ' ' :: '=' :: ' ' :: value
  | .ports value => "# AllowedPorts = ".toList ++ value

theorem ConfLine.render_entry (key : String) (value : List Char) :
    (ConfLine.entry key value).render = key.toList ++ ' ' :: '=' :: ' ' :: value :=
  rfl

theorem ConfLine.render_ports (value : List Char) :
    (ConfLine.ports value).render = "# AllowedPorts = ".toList ++ value :=
  rfl

/-- The lines of a file. -/
def confText (lines : List ConfLine) : List Char :=
  ['\n'].intercalate (lines.map ConfLine.render)

/-- Entries, a line each. -/
def entryLines (es : List (String × List Char)) : List ConfLine :=
  es.map fun e => .entry e.1 e.2

/-- `awgProfileConfLines`, of a profile of the generator, which sets neither of the switches of
version 3.1. -/
def awgProfileConfLines (p : AwgParams) : List (String × List Char) :=
  [("Jc", decimal p.jc), ("Jmin", decimal p.jmin), ("Jmax", decimal p.jmax),
    ("S1", decimal p.s1), ("S2", decimal p.s2)] ++ addNonzero "S3" p.s3 ++
    addNonzero "S4" p.s4 ++ [("H1", p.h1), ("H2", p.h2), ("H3", p.h3), ("H4", p.h4)] ++
    (if p.hpKey = [] then [] else [("HeaderProtectionKey", p.hpKey)]) ++ addCps "" p.cps

/-- The argument of `buildAwgConf`. -/
structure ConfClient where
  clientPriv : List Char
  serverPub : List Char
  awgParams : AwgParams
  endpoint : List Char
  awgPort : ℕ
  band : List Char
  tunClientIP : List Char
  dnsServer : List Char

/-- The entries of `[Interface]` in `buildAwgConf`. -/
def ConfClient.ifaceLines (o : ConfClient) : List (String × List Char) :=
  [("PrivateKey", o.clientPriv), ("Address", o.tunClientIP ++ "/32".toList)] ++
    (if o.dnsServer = [] then [] else [("DNS", o.dnsServer)]) ++ awgProfileConfLines o.awgParams

/-- The lines of `buildAwgConf`. -/
def confLines (o : ConfClient) : List ConfLine :=
  .section .interface :: entryLines o.ifaceLines ++
    .blank :: .section .peer :: entryLines [("PublicKey", o.serverPub),
      ("Endpoint", endpointJoin o.endpoint (decimal o.awgPort))] ++
    (if o.band = [] then [] else [.ports (hubPorts o.awgPort o.band)]) ++
    entryLines [("AllowedIPs", "0.0.0.0/0".toList), ("PersistentKeepalive", "25".toList)]

/-- `buildAwgConf`. -/
def buildAwgConf (o : ConfClient) : List Char :=
  confText (confLines o)

/-! ### What a file of a client says -/

/-- The values of `[Interface]`. -/
def ConfClient.iface (o : ConfClient) : IfaceKey → List Char
  | .privateKey => o.clientPriv
  | .address => o.tunClientIP ++ "/32".toList
  | .dns => o.dnsServer
  | .jc => decimal o.awgParams.jc
  | .jmin => decimal o.awgParams.jmin
  | .jmax => decimal o.awgParams.jmax
  | .s1 => decimal o.awgParams.s1
  | .s2 => decimal o.awgParams.s2
  | .s3 => if o.awgParams.s3 = 0 then [] else decimal o.awgParams.s3
  | .s4 => if o.awgParams.s4 = 0 then [] else decimal o.awgParams.s4
  | .h1 => o.awgParams.h1
  | .h2 => o.awgParams.h2
  | .h3 => o.awgParams.h3
  | .h4 => o.awgParams.h4
  | .i1 => (o.awgParams.cps.getD []).getD 0 []
  | .i2 => (o.awgParams.cps.getD []).getD 1 []
  | .i3 => (o.awgParams.cps.getD []).getD 2 []
  | .i4 => (o.awgParams.cps.getD []).getD 3 []
  | .i5 => (o.awgParams.cps.getD []).getD 4 []
  | .headerProtectionKey => o.awgParams.hpKey
  | _ => []

/-- The values of `[Peer]`. -/
def ConfClient.peer (o : ConfClient) : PeerKey → List Char
  | .publicKey => o.serverPub
  | .endpoint => endpointJoin o.endpoint (decimal o.awgPort)
  | .allowedIPs => "0.0.0.0/0".toList
  | .presharedKey => []
  | .persistentKeepalive => "25".toList

/-- The file, as it is meant. -/
def ConfClient.parsed (o : ConfClient) : Parsed := ⟨o.iface, o.peer, []⟩

/-- The ports, as they are meant. -/
def ConfClient.ports (o : ConfClient) : Option (List Char) :=
  if o.band = [] then none else some (hubPorts o.awgPort o.band)

/-! ### A line that is read back -/

/-- A key that a line can begin with. -/
def PlainKey (key : String) : Prop :=
  trim key.toList = key.toList ∧ key.toList ≠ [] ∧ key.toList.head? ≠ some '#' ∧
    key.toList.head? ≠ some ';' ∧ '=' ∉ key.toList ∧ '\n' ∉ key.toList ∧ key ≠ "__proto__"

instance (key : String) : Decidable (PlainKey key) :=
  inferInstanceAs (Decidable (_ ∧ _))

/-- A value that a line can end with. -/
def PlainValue (value : List Char) : Prop :=
  trim value = value ∧ '\n' ∉ value

/-- A line whose parts survive being written into one. -/
def ConfLine.Plain : ConfLine → Prop
  | .blank | .section _ => True
  | .entry key value => PlainKey key ∧ PlainValue value
  | .ports value => trim value = value ∧ value ≠ [] ∧ ∀ c ∈ value, isLineTerminator c = false

/-- What a line does. -/
def ConfLine.apply (st : ConfFile × Option ConfSection) : ConfLine → ConfFile × Option ConfSection
  | .blank => st
  | .section sec => (st.1, some sec)
  | .entry key value => (st.2.elim st.1 (st.1.set key.toList value), st.2)
  | .ports value => ({ st.1 with allowedPorts := some value }, st.2)

/-- A text whose ends are not white space is no longer trimmed. -/
theorem trim_eq_self {s : List Char} (hhead : ∀ c ∈ s.head?, isSpace c = false)
    (hlast : ∀ c ∈ s.getLast?, isSpace c = false) : trim s = s :=
  Text.trim_eq_self_iff.mpr ⟨hhead, hlast⟩

/-- The `\r` of a line's end is trimmed with the line. -/
theorem trim_stripCr (s : List Char) : trim (stripCr s) = trim s := by
  unfold stripCr
  split
  · rename_i hlast
    obtain ⟨s', rfl⟩ := List.getLast?_eq_some_iff.mp hlast
    rw [List.dropLast_concat]
    have happ := Text.trim_append (p := isSpace) (a := []) (s := s') (b := ['\r']) (by simp)
      (by simp [show isSpace '\r' = true from rfl])
    exact happ.symm
  · rfl

theorem parseLine_stripCr (st : ConfFile × Option ConfSection) (s : List Char) :
    parseLine st (stripCr s) = parseLine st s := by
  simp only [parseLine, trim_stripCr]

/-- The file does not depend on what its lines end in. -/
theorem foldl_parseLine_splitLines (st : ConfFile × Option ConfSection) (text : List Char) :
    (splitLines text).foldl parseLine st = (text.splitOn '\n').foldl parseLine st := by
  rw [splitLines, List.foldl_append, List.foldl_map]
  simp only [parseLine_stripCr]
  rw [← List.foldl_append]
  rcases List.eq_nil_or_concat (text.splitOn '\n') with h | ⟨pieces, piece, h⟩ <;> simp [h]

/-- The entry's line, trimmed: without a value the blank behind the sign goes. -/
theorem trim_entry {ks : List Char} (hkey : trim ks = ks) (hne : ks ≠ []) :
    ∀ {value : List Char}, trim value = value → ∃ v, trim v = value ∧
      trim (ks ++ ' ' :: '=' :: ' ' :: value) = (ks ++ [' ']) ++ '=' :: v := by
  obtain ⟨c, ks, rfl⟩ := List.exists_cons_of_ne_nil hne
  have hc : isSpace c = false := (Text.trim_eq_self_iff.mp hkey).1 c (by simp)
  rintro (_ | ⟨d, ds⟩) hv
  · refine ⟨[], hv, ?_⟩
    have happ : (c :: ks) ++ [' ', '=', ' '] = [] ++ (((c :: ks) ++ [' ', '=']) ++ [' ']) := by
      simp
    rw [happ, trim, Text.trim_append (by simp) (by simp [show isSpace ' ' = true from rfl])]
    refine (trim_eq_self (by simpa using hc) ?_).trans (by simp)
    rw [List.getLast?_append_of_ne_nil _ (by simp)]
    simp [show isSpace '=' = false from rfl]
  · have hd := (Text.trim_eq_self_iff.mp hv).2
    refine ⟨' ' :: d :: ds, ?_, ?_⟩
    · rw [trim, show ' ' :: d :: ds = [' '] ++ (d :: ds ++ []) by simp,
        Text.trim_append (by simp [show isSpace ' ' = true from rfl]) (by simp)]
      exact hv
    · have happ : (c :: ks) ++ ' ' :: '=' :: ' ' :: d :: ds =
          ((c :: ks) ++ [' ', '=', ' ']) ++ d :: ds := by simp
      rw [happ]
      refine (trim_eq_self (by simpa using hc) ?_).trans (by simp)
      rw [List.getLast?_append_of_ne_nil _ (by simp)]
      exact hd

/-- A line that is no comment names no ports. -/
theorem allowedPorts?_eq_none {s : List Char} (h : s.head? ≠ some '#') (h' : s.head? ≠ some ';') :
    allowedPorts? s = none := by
  cases s with
  | nil => rfl
  | cons c s =>
      rw [allowedPorts?, if_neg]
      rintro (rfl | rfl)
      · exact h rfl
      · exact h' rfl

/-- The comment with the ports. -/
theorem allowedPorts?_ports {value : List Char} (hv : trim value = value) (hne : value ≠ [])
    (hdot : ∀ c ∈ value, isLineTerminator c = false) :
    allowedPorts? (ConfLine.ports value).render = some value := by
  obtain ⟨c, v, rfl⟩ := List.exists_cons_of_ne_nil hne
  have hc : isSpace c = false := (Text.trim_eq_self_iff.mp hv).1 c (by simp)
  have hblank : isSpace ' ' = true := rfl
  have hdrop : (' ' :: c :: v).dropWhile isSpace = c :: v := by
    simp [hc, hblank]
  have hany : (c :: v).any isLineTerminator = false := by
    simpa using hdot
  have hname : (' ' :: 'A' :: "llowedPorts = ".toList ++ c :: v).dropWhile isSpace =
      'A' :: "llowedPorts = ".toList ++ c :: v := by
    simp [hblank, show isSpace 'A' = false from rfl]
  have hsign : (' ' :: '=' :: ' ' :: c :: v).dropWhile isSpace = '=' :: ' ' :: c :: v := by
    simp [hblank, show isSpace '=' = false from rfl]
  have hprefix : dropPrefixNoCase "AllowedPorts".toList
      ('A' :: "llowedPorts = ".toList ++ c :: v) = some (' ' :: '=' :: ' ' :: c :: v) := rfl
  have hrender : (ConfLine.ports (c :: v)).render =
      '#' :: (' ' :: 'A' :: "llowedPorts = ".toList ++ c :: v) := rfl
  rw [hrender, allowedPorts?, if_pos (Or.inl rfl), hname, hprefix, Option.bind_some, hsign]
  simp [hdrop, hany, hv]

/-- An entry is no section's line. -/
theorem entry_ne_section (s t : List Char) (sec : ConfSection) :
    s ++ '=' :: t ≠ sec.line.toList := by
  have hsign : '=' ∉ sec.line.toList := by
    cases sec <;> decide +kernel
  intro h
  exact hsign (h ▸ by simp)

/-- An entry that is read back goes to the section it is in. -/
theorem parseLine_entry (st : ConfFile × Option ConfSection) {key : String} {value : List Char}
    (hk : PlainKey key) (hv : trim value = value) :
    parseLine st (key.toList ++ ' ' :: '=' :: ' ' :: value) =
      (st.2.elim st.1 (st.1.set key.toList value), st.2) := by
  obtain ⟨hkey, hne, hhash, hsemi, heq, -, -⟩ := hk
  obtain ⟨v, htrim, hline⟩ := trim_entry hkey hne hv
  have hhead : ((key.toList ++ [' ']) ++ '=' :: v).head? = key.toList.head? := by
    simp [List.head?_append_of_ne_nil _ hne]
  have hcut : splitFirst? '=' ((key.toList ++ [' ']) ++ '=' :: v) =
      some (key.toList ++ [' '], v) := splitFirst?_append (by simp [heq])
  have htrimKey : trim (key.toList ++ [' ']) = key.toList := by
    have happ := Text.trim_append (p := isSpace) (a := []) (s := key.toList) (b := [' '])
      (by simp) (by simp [show isSpace ' ' = true from rfl])
    exact happ.trans hkey
  have hports : allowedPorts? ((key.toList ++ [' ']) ++ '=' :: v) = none :=
    allowedPorts?_eq_none (hhead ▸ hhash) (hhead ▸ hsemi)
  have hcomment : ¬(((key.toList ++ [' ']) ++ '=' :: v) = [] ∨
      ((key.toList ++ [' ']) ++ '=' :: v).head? = some '#' ∨
      ((key.toList ++ [' ']) ++ '=' :: v).head? = some ';') := by
    rw [hhead]
    simp [hhash, hsemi]
  have hiface : (key.toList ++ [' ']) ++ '=' :: v ≠ "[Interface]".toList :=
    entry_ne_section _ v .interface
  have hpeer : (key.toList ++ [' ']) ++ '=' :: v ≠ "[Peer]".toList := entry_ne_section _ v .peer
  simp only [parseLine, hline, hports, Option.elim_none]
  rw [if_neg hcomment, if_neg hiface, if_neg hpeer, hcut]
  cases st.2 with
  | none => rfl
  | some sec => simp [htrimKey, htrim]

/-- The ports that are read back. -/
theorem parseLine_ports (st : ConfFile × Option ConfSection) {value : List Char}
    (hv : trim value = value) (hne : value ≠ [])
    (hdot : ∀ c ∈ value, isLineTerminator c = false) :
    parseLine st ("# AllowedPorts = ".toList ++ value) =
      ({ st.1 with allowedPorts := some value }, st.2) := by
  have hrender : "# AllowedPorts = ".toList ++ value =
      '#' :: (" AllowedPorts = ".toList ++ value) :=
    rfl
  have hlast : ∀ c ∈ ('#' :: (" AllowedPorts = ".toList ++ value)).getLast?, isSpace c = false := by
    rw [← List.cons_append, List.getLast?_append_of_ne_nil _ hne]
    exact (Text.trim_eq_self_iff.mp hv).2
  have hline := trim_eq_self (by simp [show isSpace '#' = false from rfl]) hlast
  have hports := allowedPorts?_ports hv hne hdot
  rw [ConfLine.render_ports, hrender] at hports
  rw [hrender]
  simp only [parseLine, hline, hports]
  rw [if_pos (Or.inr (Or.inl List.head?_cons))]
  rfl

/-- What a line does when it is read back. -/
theorem parseLine_render (st : ConfFile × Option ConfSection) {l : ConfLine} (hl : l.Plain) :
    parseLine st l.render = l.apply st := by
  cases l with
  | blank => rfl
  | «section» sec => cases sec <;> rfl
  | entry key value =>
      rw [ConfLine.render_entry]
      exact parseLine_entry st hl.1 hl.2.1
  | ports value =>
      rw [ConfLine.render_ports]
      exact parseLine_ports st hl.1 hl.2.1 hl.2.2

/-- A line that is written is one line. -/
theorem notMem_render {l : ConfLine} (hl : l.Plain) : '\n' ∉ l.render := by
  cases l with
  | blank => exact List.not_mem_nil
  | «section» sec => cases sec <;> decide +kernel
  | entry key value =>
      obtain ⟨⟨-, -, -, -, -, hkey, -⟩, -, hvalue⟩ := hl
      simp [ConfLine.render_entry, hkey, hvalue]
  | ports value =>
      have hvalue : '\n' ∉ value := fun hmem => absurd (hl.2.2 _ hmem) (by decide)
      have hname : '\n' ∉ "# AllowedPorts = ".toList := by decide +kernel
      rw [ConfLine.render_ports, List.mem_append]
      exact not_or.mpr ⟨hname, hvalue⟩

/-- **A file is read back line by line**: what it says is what its lines do, in their order. -/
theorem parseConf_confText {lines : List ConfLine} (hne : lines ≠ [])
    (hplain : ∀ l ∈ lines, l.Plain) :
    parseConf (confText lines) = (lines.foldl ConfLine.apply (.empty, none)).1 := by
  have hsplit : (confText lines).splitOn '\n' = lines.map ConfLine.render := by
    refine List.splitOn_intercalate '\n' (fun t ht => ?_) (by simpa using hne)
    obtain ⟨l, hl, rfl⟩ := List.mem_map.mp ht
    exact notMem_render (hplain l hl)
  rw [parseConf, foldl_parseLine_splitLines, hsplit, List.foldl_map]
  congr 1
  clear hne hsplit
  generalize (ConfFile.empty, none) = st
  induction lines generalizing st with
  | nil => rfl
  | cons l lines ih =>
      obtain ⟨hl, hlines⟩ := List.forall_mem_cons.mp hplain
      rw [List.foldl_cons, List.foldl_cons, parseLine_render st hl]
      exact ih hlines _

/-! ### Whatever is read -/

/-- The values of a file are values a line can end with. -/
structure ConfFile.Plain (f : ConfFile) : Prop where
  iface : ∀ key, ∀ v ∈ f.iface key, PlainValue v
  peer : ∀ key, ∀ v ∈ f.peer key, PlainValue v
  ports : ∀ v ∈ f.allowedPorts, (ConfLine.ports v).Plain

theorem plainValue_trim {v : List Char} (hv : '\n' ∉ v) : PlainValue (trim v) :=
  ⟨trim_trim v, fun hmem => hv (Text.mem_of_mem_trim hmem)⟩

theorem mem_setKey {values : List Char → Option (List Char)} {key value k v : List Char}
    (h : v ∈ setKey values key value k) : v = value ∨ v ∈ values k := by
  unfold setKey at h
  split at h
  · exact Or.inr h
  · by_cases hk : k = key
    · subst hk
      rw [Function.update_self] at h
      exact Or.inl (Option.mem_some.mp h).symm
    · rw [Function.update_of_ne hk] at h
      exact Or.inr h

theorem ConfFile.Plain.set {f : ConfFile} (hf : f.Plain) {value : List Char}
    (hv : PlainValue value) (key : List Char) (sec : ConfSection) :
    (f.set key value sec).Plain := by
  cases sec with
  | interface =>
      refine { hf with iface := fun k v hmem => ?_ }
      rcases mem_setKey hmem with rfl | hmem
      · exact hv
      · exact hf.iface k v hmem
  | peer =>
      refine { hf with peer := fun k v hmem => ?_ }
      rcases mem_setKey hmem with rfl | hmem
      · exact hv
      · exact hf.peer k v hmem

/-- Behind the white space there is something left to trim, if there is anything. -/
theorem trim_dropWhile_ne_nil {s : List Char} (h : s.dropWhile isSpace ≠ []) :
    trim (s.dropWhile isSpace) ≠ [] := by
  obtain ⟨c, t, ht⟩ := List.exists_cons_of_ne_nil h
  have hc : isSpace c = false := by
    have := List.head_dropWhile_not isSpace h
    simpa [ht] using this
  rw [ht]
  exact List.ne_nil_of_mem (mem_trim hc List.mem_cons_self)

theorem plain_of_allowedPorts? {s v : List Char} (h : allowedPorts? s = some v) :
    (ConfLine.ports v).Plain := by
  cases s with
  | nil => cases h
  | cons c s =>
      rw [allowedPorts?] at h
      split at h
      · obtain ⟨t, -, h⟩ := Option.bind_eq_some_iff.mp h
        split at h
        · rename_i w hw
          obtain ⟨hnot, h⟩ := Option.ite_none_left_eq_some.mp h
          obtain rfl := Option.some.inj h
          obtain ⟨hne, hany⟩ := not_or.mp hnot
          refine ⟨trim_trim _, trim_dropWhile_ne_nil hne, fun c hc => ?_⟩
          rw [Bool.not_eq_true, List.any_eq_false] at hany
          exact Bool.not_eq_true _ ▸ hany c (Text.mem_of_mem_trim hc)
        · cases h
      · cases h

/-- A line keeps them so. -/
theorem ConfFile.Plain.parseLine {st : ConfFile × Option ConfSection} (hst : st.1.Plain)
    {raw : List Char} (hraw : '\n' ∉ raw) : (parseLine st raw).1.Plain := by
  obtain ⟨f, sec⟩ := st
  have hline : '\n' ∉ trim raw := fun hmem => hraw (Text.mem_of_mem_trim hmem)
  have hports : ((allowedPorts? (trim raw)).elim f fun ap =>
      { f with allowedPorts := some ap }).Plain := by
    cases hap : allowedPorts? (trim raw) with
    | none => exact hst
    | some ap =>
        refine { hst with ports := fun v hv => ?_ }
        obtain rfl := Option.some.inj (Option.mem_def.mp hv)
        exact plain_of_allowedPorts? hap
  rw [Configurator.parseLine]
  dsimp only
  split
  · exact hports
  split
  · exact hports
  split
  · exact hports
  split
  · rename_i sec k v hsec hcut
    obtain ⟨hsplit, -⟩ := splitFirst?_eq_some_iff.mp hcut
    refine hports.set (plainValue_trim fun hmem => hline ?_) _ _
    rw [hsplit]
    simp [hmem]
  · exact hports

/-- Everything a file says could be written into a line. -/
theorem parseConf_plain (text : List Char) : (parseConf text).Plain := by
  have hpieces := notMem_of_mem_splitOn (c := '\n') (s := text)
  rw [parseConf, foldl_parseLine_splitLines]
  have hempty : (ConfFile.empty, (none : Option ConfSection)).1.Plain :=
    ⟨by rintro _ _ ⟨⟩, by rintro _ _ ⟨⟩, by rintro _ ⟨⟩⟩
  generalize (ConfFile.empty, (none : Option ConfSection)) = st at hempty ⊢
  generalize text.splitOn '\n' = pieces at hpieces ⊢
  induction pieces generalizing st with
  | nil => exact hempty
  | cons raw pieces ih =>
      obtain ⟨hraw, hpieces⟩ := List.forall_mem_cons.mp hpieces
      exact ih _ (hempty.parseLine hraw) hpieces

/-! ### The file of a client -/

/-- The entries of a section. -/
def setAll (values : List Char → Option (List Char)) (es : List (String × List Char)) :
    List Char → Option (List Char) :=
  es.foldl (fun values e => setKey values e.1.toList e.2) values

theorem foldl_entryLines (sec : ConfSection) (es : List (String × List Char)) (f : ConfFile) :
    (entryLines es).foldl ConfLine.apply (f, some sec) =
      (match sec with
        | .interface => { f with iface := setAll f.iface es }
        | .peer => { f with peer := setAll f.peer es }, some sec) := by
  induction es generalizing f with
  | nil => cases sec <;> rfl
  | cons e es ih =>
      refine (ih _).trans ?_
      cases sec <;> rfl

/-- Different keys are each set to their value. -/
theorem setAll_apply {es : List (String × List Char)} (hkeys : (es.map Prod.fst).Nodup)
    (hplain : ∀ e ∈ es, PlainKey e.1) (values : List Char → Option (List Char)) (key : String) :
    setAll values es key.toList = (es.lookup key).or (values key.toList) := by
  induction es generalizing values with
  | nil => rfl
  | cons e es ih =>
      obtain ⟨hnot, hkeys⟩ := List.nodup_cons.mp hkeys
      obtain ⟨⟨-, -, -, -, -, -, hproto⟩, hplain⟩ := List.forall_mem_cons.mp hplain
      refine (ih hkeys hplain _).trans ?_
      dsimp only
      have hset : setKey values e.1.toList e.2 =
          Function.update values e.1.toList (some e.2) :=
        if_neg fun h => hproto (String.toList_inj.mp h)
      rw [hset, List.lookup_cons]
      by_cases hk : key = e.1
      · have hnone : es.lookup key = none :=
          lookup_eq_none_of_notMem fun v hv heq =>
            hnot (List.mem_map.mpr ⟨v, hv, heq.symm.trans hk⟩)
        rw [hnone, Option.none_or, hk, Function.update_self, beq_self_eq_true]
        rfl
      · have hne : key.toList ≠ e.1.toList := fun h => hk (String.toList_inj.mp h)
        rw [Function.update_of_ne hne, beq_false_of_ne hk]

/-- The keys of `[Interface]` that are written. -/
def confKeys : List IfaceKey :=
  [.privateKey, .address, .dns, .jc, .jmin, .jmax, .s1, .s2, .s3, .s4, .h1, .h2, .h3, .h4,
    .headerProtectionKey, .i1, .i2, .i3, .i4, .i5]

/-- The keys of `[Peer]` that are written, all but the key no hub sets. -/
def confPeerKeys : List PeerKey := [.publicKey, .endpoint, .allowedIPs, .persistentKeepalive]

/-- The entries of `[Peer]` with some keys. -/
def ConfClient.peerLines (o : ConfClient) (ks : List PeerKey) : List (String × List Char) :=
  ks.map fun k => (k.text, o.peer k)

section

variable {o : ConfClient}

theorem confLines_eq (o : ConfClient) : confLines o =
    .section .interface :: entryLines o.ifaceLines ++
      .blank :: .section .peer :: entryLines (o.peerLines [.publicKey, .endpoint]) ++
      (if o.band = [] then [] else [.ports (hubPorts o.awgPort o.band)]) ++
      entryLines (o.peerLines [.allowedIPs, .persistentKeepalive]) :=
  rfl

/-- The templates have the names there are, in their order. -/
theorem addCps_eq_zip (hfew : FewTemplates o.awgParams.toObfLevel) :
    addCps "" o.awgParams.cps = templateSuffixes.zip (o.awgParams.cps.getD []) := by
  have hnames : ∀ i : Fin 5, "" ++ "I" ++ toString (i.val + 1) = templateSuffixes[i] := by
    decide +kernel
  have hlen : (o.awgParams.cps.getD []).length ≤ 5 := hfew
  refine List.ext_getElem ?_ fun i h₁ h₂ => ?_
  · rw [addCps, List.length_map, List.length_zipIdx, List.length_zip]
    exact (min_eq_right hlen).symm
  · rw [addCps, List.length_map, List.length_zipIdx] at h₁
    have hi : i < 5 := by omega
    simp only [addCps, List.getElem_map, List.getElem_zipIdx, List.getElem_zip, Nat.zero_add]
    exact Prod.ext (hnames ⟨i, hi⟩) rfl

theorem map_fst_zip_sublist {α β : Type*} (l : List α) (r : List β) :
    ((l.zip r).map Prod.fst).Sublist l := by
  induction l generalizing r with
  | nil => exact List.Sublist.slnil
  | cons a l ih =>
      cases r with
      | nil => exact List.nil_sublist _
      | cons b r => exact (ih r).cons_cons a

/-- The keys that are written, each once. -/
theorem keys_ifaceLines (hfew : FewTemplates o.awgParams.toObfLevel) :
    (o.ifaceLines.map Prod.fst).Sublist (confKeys.map IfaceKey.text) := by
  have hopt : ∀ (p : Prop) [Decidable p] (key : String) (v : List Char),
      ((if p then [] else [(key, v)]).map Prod.fst).Sublist [key] := by
    intro p _ key v
    split
    · exact List.nil_sublist _
    · exact List.Sublist.refl _
  have hkeys : confKeys.map IfaceKey.text = ["PrivateKey", "Address"] ++ ["DNS"] ++
      (["Jc", "Jmin", "Jmax", "S1", "S2"] ++ ["S3"] ++ ["S4"] ++ ["H1", "H2", "H3", "H4"] ++
        ["HeaderProtectionKey"] ++ templateSuffixes) := rfl
  have htemplates : ((addCps "" o.awgParams.cps).map Prod.fst).Sublist templateSuffixes := by
    rw [addCps_eq_zip hfew]
    exact map_fst_zip_sublist _ _
  rw [hkeys, ConfClient.ifaceLines, awgProfileConfLines]
  simp only [List.map_append]
  exact ((List.Sublist.refl _).append (hopt _ _ _)).append
    ((((((List.Sublist.refl _).append (hopt _ _ _)).append (hopt _ _ _)).append
      (List.Sublist.refl _)).append (hopt _ _ _)).append htemplates)

theorem nodup_ifaceLines (hfew : FewTemplates o.awgParams.toObfLevel) :
    (o.ifaceLines.map Prod.fst).Nodup := by
  have hkeys : (confKeys.map IfaceKey.text).Nodup := by decide +kernel
  exact (keys_ifaceLines hfew).nodup hkeys

theorem IfaceKey.plain (k : IfaceKey) : PlainKey k.text := by
  cases k <;> decide +kernel

theorem PeerKey.plain (k : PeerKey) : PlainKey k.text := by
  cases k <;> decide +kernel

/-- The file of a client, line by line. -/
theorem foldl_confLines (o : ConfClient) : (confLines o).foldl ConfLine.apply (.empty, none) =
    (⟨setAll (fun _ => none) o.ifaceLines, setAll (fun _ => none) (o.peerLines confPeerKeys),
      o.ports⟩, some .peer) := by
  have hpeer : o.peerLines confPeerKeys =
      o.peerLines [.publicKey, .endpoint] ++ o.peerLines [.allowedIPs, .persistentKeepalive] := rfl
  rw [confLines_eq, ConfClient.ports, hpeer, setAll, setAll, List.foldl_append]
  simp only [List.cons_append, List.foldl_cons, List.foldl_append, ConfLine.apply,
    foldl_entryLines]
  split <;> rfl

theorem lookup_ite {p : Prop} [Decidable p] (name key : String) (v : List Char) :
    (if p then [] else [(key, v)]).lookup name =
      if p then none else if name = key then some v else none := by
  split
  · rfl
  · by_cases heq : name = key
    · rw [heq, List.lookup_cons_self, if_pos rfl]
    · rw [List.lookup_cons, beq_false_of_ne heq, if_neg heq]
      rfl

/-- A name of a list of names finds what stands in its place. -/
theorem lookup_zip {names : List String} (hnames : names.Nodup) (ts : List (List Char)) {i : ℕ}
    {name : String} (hi : names[i]? = some name) : (names.zip ts).lookup name = ts[i]? := by
  induction names generalizing ts i with
  | nil => cases hi
  | cons n names ih =>
      obtain ⟨hnot, hnames⟩ := List.nodup_cons.mp hnames
      cases ts with
      | nil => rfl
      | cons t ts =>
          rw [List.zip_cons_cons, List.lookup_cons]
          cases i with
          | zero =>
              obtain rfl := Option.some.inj hi
              rw [beq_self_eq_true]
              rfl
          | succ i =>
              have hmem : name ∈ names := List.mem_of_getElem? hi
              have hne : name ≠ n := fun h => hnot (h ▸ hmem)
              rw [beq_false_of_ne hne]
              exact ih hnames ts hi

theorem getD_ite {p : Prop} [Decidable p] (v : List Char) :
    (if p then none else some v).getD [] = if p then [] else v := by
  split <;> rfl

theorem ite_nil_self (v : List Char) : (if v = [] then [] else v) = v := by
  split
  · rename_i h
    exact h.symm
  · rfl

/-- What is looked up in `[Interface]`. -/
theorem lookup_ifaceLines (hfew : FewTemplates o.awgParams.toObfLevel) (k : IfaceKey) :
    (o.ifaceLines.lookup k.text).getD [] = o.iface k := by
  have hother : ∀ name ∉ templateSuffixes, (addCps "" o.awgParams.cps).lookup name = none :=
    fun name => lookup_addCps hfew
  have hplace : ∀ (i : ℕ) (name : String), templateSuffixes[i]? = some name →
      (addCps "" o.awgParams.cps).lookup name = (o.awgParams.cps.getD [])[i]? := by
    intro i name hname
    rw [addCps_eq_zip hfew]
    exact lookup_zip (by decide) _ hname
  have h1 := hplace 0 "I1" rfl
  have h2 := hplace 1 "I2" rfl
  have h3 := hplace 2 "I3" rfl
  have h4 := hplace 3 "I4" rfl
  have h5 := hplace 4 "I5" rfl
  cases k <;>
    simp [ConfClient.ifaceLines, awgProfileConfLines, List.lookup_append, lookup_addNonzero,
      lookup_ite, List.lookup_cons, IfaceKey.text, ConfClient.iface, hother, templateSuffixes, h1,
      h2, h3, h4, h5, getD_ite, ite_nil_self]

/-- Each value of a client is one a line can end with. -/
structure ConfClient.Plain (o : ConfClient) : Prop where
  iface : ∀ k, PlainValue (o.iface k)
  peer : ∀ k, PlainValue (o.peer k)
  ports : ∀ v ∈ o.ports, (ConfLine.ports v).Plain

theorem lookup_of_mem {es : List (String × List Char)} (hkeys : (es.map Prod.fst).Nodup)
    {e : String × List Char} (he : e ∈ es) : es.lookup e.1 = some e.2 := by
  obtain ⟨l, r, rfl⟩ := List.append_of_mem he
  rw [List.map_append, List.map_cons, List.nodup_append] at hkeys
  obtain ⟨-, -, hdisj⟩ := hkeys
  have hnone : l.lookup e.1 = none :=
    lookup_eq_none_of_notMem fun v hv heq =>
      hdisj v.1 (List.mem_map_of_mem hv) e.1 List.mem_cons_self heq.symm
  rw [List.lookup_append, hnone, Option.none_or, List.lookup_cons, beq_self_eq_true]

theorem plain_ifaceLines (hfew : FewTemplates o.awgParams.toObfLevel) (hplain : o.Plain) :
    ∀ l ∈ entryLines o.ifaceLines, l.Plain := by
  have hsub := keys_ifaceLines hfew
  have hkeys := nodup_ifaceLines hfew
  intro l hl
  obtain ⟨e, he, rfl⟩ := List.mem_map.mp hl
  obtain ⟨k, -, hk⟩ := List.mem_map.mp (hsub.subset (List.mem_map_of_mem he))
  have hvalue := lookup_ifaceLines hfew k
  rw [hk, lookup_of_mem hkeys he, Option.getD_some] at hvalue
  exact ⟨hk ▸ k.plain, hvalue ▸ hplain.iface k⟩

theorem plain_peerLines (hplain : o.Plain) (ks : List PeerKey) :
    ∀ l ∈ entryLines (o.peerLines ks), l.Plain := by
  intro l hl
  obtain ⟨e, he, rfl⟩ := List.mem_map.mp hl
  obtain ⟨k, -, rfl⟩ := List.mem_map.mp he
  exact ⟨k.plain, hplain.peer k⟩

theorem plain_confLines (hfew : FewTemplates o.awgParams.toObfLevel) (hplain : o.Plain) :
    ∀ l ∈ confLines o, l.Plain := by
  have hports : ∀ l ∈ if o.band = [] then [] else [ConfLine.ports (hubPorts o.awgPort o.band)],
      l.Plain := by
    intro l hl
    split at hl
    · cases hl
    · rename_i hband
      obtain rfl := List.mem_singleton.mp hl
      exact hplain.ports _ (if_neg hband)
  rw [confLines_eq]
  simp only [List.cons_append, List.mem_cons, List.mem_append]
  rintro l (rfl | ((hl | rfl | rfl | hl) | hl) | hl)
  · trivial
  · exact plain_ifaceLines hfew hplain l hl
  · trivial
  · trivial
  · exact plain_peerLines hplain _ l hl
  · exact hports l hl
  · exact plain_peerLines hplain _ l hl

theorem nodup_peerLines (o : ConfClient) :
    ((o.peerLines confPeerKeys).map Prod.fst).Nodup := by
  have hkeys : (confPeerKeys.map PeerKey.text).Nodup := by decide +kernel
  rw [ConfClient.peerLines, List.map_map]
  exact hkeys

/-- What is looked up in `[Peer]`. -/
theorem lookup_peerLines (o : ConfClient) (k : PeerKey) :
    ((o.peerLines confPeerKeys).lookup k.text).getD [] = o.peer k := by
  have hkeys := nodup_peerLines o
  by_cases hk : k ∈ confPeerKeys
  · have hmem : (k.text, o.peer k) ∈ o.peerLines confPeerKeys := List.mem_map_of_mem hk
    rw [lookup_of_mem hkeys hmem, Option.getD_some]
  · have hpsk : k = .presharedKey := by
      cases k <;> first | rfl | exact absurd (by decide) hk
    subst hpsk
    rw [lookup_eq_none_of_notMem]
    · rfl
    · have hne : ∀ k ∈ confPeerKeys, PeerKey.presharedKey.text ≠ k.text := by decide
      intro v hv heq
      obtain ⟨k, hk, rfl⟩ := List.mem_map.mp hv
      exact hne k hk heq

/-- What the file of a client is read as: in each section the lines that are written there. -/
theorem parseConf_buildAwgConf (hfew : FewTemplates o.awgParams.toObfLevel) (hplain : o.Plain) :
    parseConf (buildAwgConf o) = ⟨setAll (fun _ => none) o.ifaceLines,
      setAll (fun _ => none) (o.peerLines confPeerKeys), o.ports⟩ := by
  have hne : confLines o ≠ [] := List.cons_ne_nil _ _
  have hfile := parseConf_confText hne (plain_confLines hfew hplain)
  rw [foldl_confLines] at hfile
  rw [buildAwgConf, hfile]

/-- A key of `[Interface]` has the value of its line, if there is one. -/
theorem setAll_ifaceLines (hfew : FewTemplates o.awgParams.toObfLevel) (key : String) :
    setAll (fun _ => none) o.ifaceLines key.toList = o.ifaceLines.lookup key := by
  rw [setAll_apply (nodup_ifaceLines hfew) ?_, Option.or_none]
  intro e he
  have hmem := (keys_ifaceLines hfew).subset (List.mem_map_of_mem he)
  obtain ⟨k, -, hk⟩ := List.mem_map.mp hmem
  exact hk ▸ k.plain

/-- So does a key of `[Peer]`. -/
theorem setAll_peerLines (o : ConfClient) (key : String) :
    setAll (fun _ => none) (o.peerLines confPeerKeys) key.toList =
      (o.peerLines confPeerKeys).lookup key := by
  rw [setAll_apply (nodup_peerLines o) ?_, Option.or_none]
  intro e he
  obtain ⟨k, -, rfl⟩ := List.mem_map.mp he
  exact k.plain

/-- **The file of a client is read back** as it was written, all of it, exactly when each of its
values is of one line with no white space around it. Then every key has the value of its line,
and a key without a line is not there at all. -/
theorem parseConf_buildAwgConf_iff (hfew : FewTemplates o.awgParams.toObfLevel) :
    (((parseConf (buildAwgConf o)).parsed = o.parsed ∧
      (parseConf (buildAwgConf o)).allowedPorts = o.ports) ↔ o.Plain) ∧
    (o.Plain → ∀ key : String,
      (parseConf (buildAwgConf o)).iface key.toList = o.ifaceLines.lookup key ∧
      (parseConf (buildAwgConf o)).peer key.toList =
        (o.peerLines confPeerKeys).lookup key) := by
  refine ⟨⟨?_, fun hplain => ?_⟩, fun hplain key => ?_⟩
  · rintro ⟨hparsed, hports⟩
    have hread := parseConf_plain (buildAwgConf o)
    have hgetD : ∀ v : Option (List Char), (∀ x ∈ v, PlainValue x) → PlainValue (v.getD []) := by
      intro v hv
      cases v with
      | none => exact ⟨rfl, List.not_mem_nil⟩
      | some x => exact hv x rfl
    refine ⟨fun k => ?_, fun k => ?_, fun v hv => hread.ports v (hports ▸ hv)⟩
    · have hk : (parseConf (buildAwgConf o)).parsed.iface k = o.iface k := by rw [hparsed]; rfl
      rw [← hk, ConfFile.parsed_iface]
      exact hgetD _ (hread.iface _)
    · have hk : (parseConf (buildAwgConf o)).parsed.peer k = o.peer k := by rw [hparsed]; rfl
      rw [← hk, ConfFile.parsed_peer]
      exact hgetD _ (hread.peer _)
  · rw [parseConf_buildAwgConf hfew hplain]
    refine ⟨?_, rfl⟩
    rw [ConfFile.parsed, ConfClient.parsed]
    simp only [setAll_ifaceLines hfew, setAll_peerLines, lookup_ifaceLines hfew, lookup_peerLines]
  · rw [parseConf_buildAwgConf hfew hplain]
    exact ⟨setAll_ifaceLines hfew key, setAll_peerLines o key⟩

end

/-- A client of a hub with a band. -/
def bandClient : ConfClient where
  clientPriv := btoa (List.replicate 32 8)
  serverPub := btoa (List.replicate 32 7)
  awgParams :=
    { level := .v3, s1 := 20, s2 := 21, s3 := 22, s4 := 12
      h1 := "5-60".toList, h2 := "100-160".toList, h3 := "200-260".toList
      h4 := "4294967295".toList
      hpKey := btoa (List.replicate 32 1)
      cps := some ["<b 0xc0ff><r 7>".toList, "<r 12>".toList]
      jc := 4, jmin := 50, jmax := 700, chain := [], port := 12429, wgListenPort := 12430 }
  endpoint := "2001:db8::1".toList
  awgPort := 12429
  band := "30000-30999".toList
  tunClientIP := "10.8.0.2".toList
  dnsServer := []

/-- Each of its values is of one line. -/
theorem bandClient_plain : bandClient.Plain := by
  refine ⟨fun k => ?_, fun k => ?_, fun v hv => ?_⟩
  · cases k <;> exact ⟨by decide +kernel, by decide +kernel⟩
  · cases k <;> exact ⟨by decide +kernel, by decide +kernel⟩
  · have hdot : (hubPorts bandClient.awgPort bandClient.band).all (!isLineTerminator ·) = true := by
      decide +kernel
    obtain rfl := Option.some.inj hv
    exact ⟨by decide +kernel, by decide +kernel, by simpa using hdot⟩

/-- Its file. It has no resolver and two templates. -/
theorem parseConf_buildAwgConf_iff_band :
    (parseConf (buildAwgConf bandClient)).parsed = bandClient.parsed ∧
      (parseConf (buildAwgConf bandClient)).allowedPorts = bandClient.ports ∧
      (parseConf (buildAwgConf bandClient)).iface "DNS".toList = none ∧
      (parseConf (buildAwgConf bandClient)).iface "I2".toList = some "<r 12>".toList ∧
      (parseConf (buildAwgConf bandClient)).iface "I3".toList = none ∧
      (parseConf (buildAwgConf bandClient)).peer "PresharedKey".toList = none := by
  have hfew : FewTemplates bandClient.awgParams.toObfLevel := (by decide : 2 ≤ awgCpsCount)
  obtain ⟨hiff, hkeys⟩ := parseConf_buildAwgConf_iff hfew
  have hkeys := hkeys bandClient_plain
  obtain ⟨hparsed, hports⟩ := hiff.mpr bandClient_plain
  exact ⟨hparsed, hports, (hkeys "DNS").1.trans (by decide +kernel),
    (hkeys "I2").1.trans (by decide +kernel), (hkeys "I3").1.trans (by decide +kernel),
    (hkeys "PresharedKey").2.trans (by decide +kernel)⟩

end Configurator

end AwgProxy
