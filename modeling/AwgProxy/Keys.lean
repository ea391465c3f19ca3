import AwgProxy.Base64Decode
import AwgProxy.CpsGrammar
import AwgProxy.Lib.FirstOccurrences

/-!
# The Keys of the Environment

The proxy is given its keys as text: the public keys of the two ends in base64, the header
protection key in base64 or in hex, and the peers of a server as a list of public keys in a
variable or a file, in any number and with repetitions.

* `decodeKey32_iff` — which texts are a key, and of which 32 bytes; every key has a text of
  either kind.
* `parseServerPeerList_iff` — a list of peers is accepted if each of its words is a key and they
  are no more than 256 different ones; what is kept is each of them once, in their order.
-/

namespace AwgProxy

open Configurator

/-! ### The code -/

/-- A key of zeros, what static storage holds. -/
def zeroKey : Bytes := List.replicate 32 0

/-- `base64_decode` of a variable into 32 bytes, `none` unless it fills them. -/
def decodeBase64Key (s : List Char) : Option Bytes :=
  match base64Decode 64 (textBytes s) zeroKey with
  | some ⟨some 32, buf⟩ => some buf
  | _ => none

/-- `decode_key32`. `hex_nibble` and the loop around it are those of a static tag. -/
def decodeKey32 (s : List Char) : Option Bytes :=
  if s.length = 64 then hexBytes s else decodeBase64Key s

/-- Why the proxy does not start. -/
inductive Halt
  /-- `fatal`, with what has been logged. -/
  | fatal (lines : List String)
  /-- A number leaves the range of an `int`: the language does not define what follows. -/
  | overflow
  deriving DecidableEq

/-- A part of the start. -/
abbrev Start := Except Halt

/-- `_exit` behind the last line of the log. -/
def die {α : Type} (line : String) : Start α := .error (.fatal [line])

/-- `AWG_MAX_SERVER_PEERS`. -/
abbrev awgMaxServerPeers : ℕ := 256

/-- `server_peer_pubs`: no key twice, and no more than there is room for. -/
structure ServerPeers where
  /-- The keys. -/
  pubs : List Bytes
  nodup : pubs.Nodup
  le : pubs.length ≤ awgMaxServerPeers

/-- A server without peers of its own. -/
def ServerPeers.empty : ServerPeers := ⟨[], .nil, Nat.zero_le _⟩

/-- `add_server_peer_pub`. -/
def addServerPeerPub (name : String) (peers : ServerPeers) (pub : Bytes) : Start ServerPeers :=
  if hmem : pub ∈ peers.pubs then .ok peers
  else if hfull : peers.pubs.length ≥ awgMaxServerPeers then
    die (name ++ ": too many peers (max 256)")
  else
    .ok {
      pubs := peers.pubs ++ [pub]
      nodup := by
        rw [← List.concat_eq_append]
        exact peers.nodup.concat hmem
      le := by
        rw [List.length_append, List.length_singleton]
        omega }

/-- `is_pub_sep`. -/
def isPubSep (c : Char) : Bool :=
  c == ',' || c == ';' || c == ' ' || c == '\t' || c == '\r' || c == '\n'

/-- `parse_server_peer_list`; every turn takes a word of the text, so `fuel` is its length. -/
def parseServerPeerList (name : String) : ℕ → ServerPeers → List Char → Start ServerPeers
  | 0, peers, _ => .ok peers
  | fuel + 1, peers, s =>
      let s := s.dropWhile isPubSep
      if s = [] then .ok peers
      else
        let token := s.takeWhile (!isPubSep ·)
        if token.length ≥ 128 then die (name ++ ": peer public key token is too long")
        else
          match decodeBase64Key token with
          | none => die (name ++ ": invalid client public key in peer list")
          | some pub => do
              let peers ← addServerPeerPub name peers pub
              parseServerPeerList name fuel peers (s.drop token.length)

/-! ### Single keys -/

/-- A text of base64 is a key when 43 characters of the alphabet are left without the padding. -/
theorem decodeBase64Key_eq_some_iff {s : List Char} {k : Bytes} :
    decodeBase64Key s = some k ↔ (stripEquals (textBytes s)).length = 43 ∧
      InAlphabet (stripEquals (textBytes s)) ∧ decodedBytes (stripEquals (textBytes s)) = k := by
  generalize ht : stripEquals (textBytes s) = t
  have hzero : zeroKey.length = 32 := rfl
  by_cases hearly : t.length % 4 = 1 ∨ zeroKey.length < t.length * 3 % 2 ^ 64 / 4
  · rw [decodeBase64Key, base64Decode_of_refused (by rw [ht]; exact hearly)]
    refine iff_of_false (by rintro ⟨⟩) ?_
    rintro ⟨h43, -, -⟩
    rw [h43, hzero] at hearly
    revert hearly
    decide
  · obtain ⟨hmod, hlong⟩ := not_or.mp hearly
    rw [decodeBase64Key, base64Decode_of_not_refused (by rw [ht]; exact hmod)
      (by rw [ht]; exact hlong), ht]
    by_cases hin : InAlphabet t
    · have hlen := length_decodedBytes hin hmod
      have hgroup := length_decodedBytes_eq t
      by_cases hroom : groupBytes t ≤ zeroKey.length
      · rw [if_pos hroom, if_pos hin, intOfSize_eq (by omega)]
        by_cases h32 : groupBytes t = 32
        · rw [Bytes.patch_zero_of_length (by omega), h32]
          change some (decodedBytes t) = some k ↔ _
          rw [Option.some.injEq]
          constructor
          · exact fun h => ⟨by omega, hin, h⟩
          · exact fun h => h.2.2
        · refine iff_of_false ?_ fun h => h32 (by omega)
          split
          · rename_i heq
            obtain ⟨hret, -⟩ := Base64Out.mk.inj (Option.some.inj heq)
            exact absurd (Int.ofNat_inj.mp (Option.some.inj hret)) h32
          · rintro ⟨⟩
      · rw [if_neg hroom]
        exact iff_of_false (by rintro ⟨⟩) fun h => hroom (by omega)
    · refine iff_of_false ?_ fun h => hin h.2.1
      split_ifs
      · rintro ⟨⟩
      · rintro ⟨⟩

/-- The base64 text of 32 bytes is that key, with its padding or without. -/
theorem decodeBase64Key_of_isBase64 {s : List Char} {k : Bytes} (hk : k.length = 32)
    (hs : IsBase64 (textBytes s) k) : decodeBase64Key s = some k := by
  obtain ⟨hin, hdec, hmod, hlen⟩ := hs.decoded
  exact decodeBase64Key_eq_some_iff.mpr ⟨by omega, hin, hdec⟩

/-- What the configurator writes for a key is read as that key. -/
theorem decodeBase64Key_btoa {k : Bytes} (hk : k.length = 32) :
    decodeBase64Key (btoa k) = some k :=
  decodeBase64Key_of_isBase64 hk (isBase64_textBytes k)

/-- A key is written in base64 with 43 characters, and one more with its padding. -/
theorem length_of_isBase64 {s : List Char} {k : Bytes} (hk : k.length = 32)
    (hs : IsBase64 (textBytes s) k) : s.length ≤ 44 := by
  have hmod := length_splitSextets_mod k
  have hjoin := length_joinSextets hmod
  rw [joinSextets_splitSextets] at hjoin
  have hlen : (byteText (textBytes s)).length = s.length := by
    rw [byteText, textBytes, List.length_map, List.length_map]
  rcases hs with hs | hs
  · rw [← hlen, hs, btoa, padTo4, List.length_append, List.length_map, List.length_replicate]
    omega
  · rw [← hlen, hs, List.length_map]
    omega

/-- What a text has to be for `decode_key32`. -/
def IsKeyText (s : List Char) (k : Bytes) : Prop :=
  if s.length = 64 then HexOf s k
  else (stripEquals (textBytes s)).length = 43 ∧ InAlphabet (stripEquals (textBytes s)) ∧
    decodedBytes (stripEquals (textBytes s)) = k

/-- The base64 text of a key is read as it. -/
theorem decodeKey32_of_isBase64 {s : List Char} {k : Bytes} (hk : k.length = 32)
    (hs : IsBase64 (textBytes s) k) : decodeKey32 s = some k := by
  have hlen := length_of_isBase64 hk hs
  rw [decodeKey32, if_neg (by omega), decodeBase64Key_of_isBase64 hk hs]

/-- **Which texts are a key**: 64 hex digits in either case, or 43 characters of base64 in front
of any padding that does not make 64 of them. Every text of 32 bytes in hex or in base64 is one
and is read as these bytes. -/
theorem decodeKey32_iff {s : List Char} {k : Bytes} :
    (decodeKey32 s = some k ↔ IsKeyText s k) ∧
      (k.length = 32 → HexOf s k ∨ IsBase64 (textBytes s) k → decodeKey32 s = some k) := by
  refine ⟨?_, fun hk hs => ?_⟩
  · rw [decodeKey32, IsKeyText]
    split
    · exact hexBytes_eq_some_iff (by omega)
    · exact decodeBase64Key_eq_some_iff
  · rcases hs with hs | hs
    · have hlen := hs.length_eq
      rw [decodeKey32, if_pos (by omega)]
      exact (hexBytes_eq_some_iff (by omega)).mpr hs
    · exact decodeKey32_of_isBase64 hk hs

/-! ### Lists of peers -/

/-- The words of a text, between the separators. -/
def peerWords (s : List Char) : List (List Char) :=
  (s.splitOnP isPubSep).filter (· ≠ [])

theorem peerWords_nil : peerWords [] = [] := rfl

/-- Separators in front of the words do not count. -/
theorem peerWords_cons {c : Char} (hc : isPubSep c = true) (s : List Char) :
    peerWords (c :: s) = peerWords s := by
  rw [peerWords, peerWords, List.splitOnP_cons_eq_if_modifyHead, if_pos hc,
    List.filter_cons_of_neg (by simp)]

theorem peerWords_dropWhile (s : List Char) : peerWords (s.dropWhile isPubSep) = peerWords s := by
  induction s with
  | nil => rfl
  | cons c s ih =>
      cases hc : isPubSep c with
      | true => rw [List.dropWhile_cons_of_pos hc, ih, peerWords_cons hc]
      | false => rw [List.dropWhile_cons_of_neg (by rw [hc]; exact Bool.false_ne_true)]

/-- The first word ends where a separator stands. -/
theorem peerWords_word {w : List Char} (hne : w ≠ []) (hw : ∀ c ∈ w, isPubSep c = false)
    {rest : List Char} (hrest : ∀ c ∈ rest.head?, isPubSep c = true) :
    peerWords (w ++ rest) = w :: peerWords rest := by
  have hsingle : (w.splitOnP isPubSep).filter (· ≠ []) = [w] := by
    rw [List.splitOnP_eq_singleton hw, List.filter_cons_of_pos (by simpa using hne),
      List.filter_nil]
  cases rest with
  | nil => rw [List.append_nil, peerWords, hsingle, peerWords_nil]
  | cons c rest =>
      have hc : isPubSep c = true := hrest c rfl
      rw [peerWords, List.splitOnP_append_cons w rest hc, List.filter_append, hsingle,
        peerWords_cons hc]
      rfl

/-- The key of a word of a list. -/
def wordKey? (w : List Char) : Option Bytes :=
  if w.length ≥ 128 then none else decodeBase64Key w

/-- The words of a list one after another. -/
def addWords (name : String) : ServerPeers → List (List Char) → Start ServerPeers
  | peers, [] => .ok peers
  | peers, w :: ws =>
      if w.length ≥ 128 then die (name ++ ": peer public key token is too long")
      else
        match decodeBase64Key w with
        | none => die (name ++ ": invalid client public key in peer list")
        | some pub => do
            let peers ← addServerPeerPub name peers pub
            addWords name peers ws

/-- The loop over the text takes its words one after another. -/
theorem parseServerPeerList_eq (name : String) {fuel : ℕ} {s : List Char} (hs : s.length ≤ fuel)
    (peers : ServerPeers) :
    parseServerPeerList name fuel peers s = addWords name peers (peerWords s) := by
  induction fuel generalizing s peers with
  | zero =>
      obtain rfl := List.eq_nil_of_length_eq_zero (Nat.le_zero.mp hs)
      rfl
  | succ fuel ih =>
      rw [parseServerPeerList, ← peerWords_dropWhile s]
      have hle : (s.dropWhile isPubSep).length ≤ s.length := s.dropWhile_suffix _ |>.length_le
      have hhead := List.head?_dropWhile_not isPubSep s
      generalize s.dropWhile isPubSep = t at hle hhead
      dsimp only
      split
      · rename_i ht
        rw [ht]
        rfl
      · rename_i hne
        -- the word and what stands behind it
        obtain ⟨c, u, rfl⟩ := List.exists_cons_of_ne_nil hne
        have hc : isPubSep c = false := hhead
        obtain ⟨w, rest, hw, hrest⟩ : ∃ w rest, (c :: u).takeWhile (!isPubSep ·) = w ∧
            (c :: u).dropWhile (!isPubSep ·) = rest := ⟨_, _, rfl, rfl⟩
        have hsplit : c :: u = w ++ rest := by
          rw [← hw, ← hrest, List.takeWhile_append_dropWhile]
        have hwne : w ≠ [] := by
          rw [← hw, List.takeWhile_cons_of_pos (by rw [hc]; rfl)]
          exact List.cons_ne_nil _ _
        have hword : ∀ d ∈ w, isPubSep d = false := by
          intro d hd
          rw [← hw] at hd
          have hnot := List.mem_takeWhile_imp hd
          exact Bool.not_eq_true' _ |>.mp hnot
        have hsep : ∀ d ∈ rest.head?, isPubSep d = true := by
          intro d hd
          have hnot := List.head?_dropWhile_not (!isPubSep ·) (c :: u)
          rw [hrest, Option.mem_def.mp hd] at hnot
          exact Bool.not_eq_false' _ |>.mp hnot
        have hlen : rest.length ≤ fuel := by
          have hlen := congrArg List.length hsplit
          have hpos := List.length_pos_iff.mpr hwne
          rw [List.length_append] at hlen
          omega
        rw [hw, hsplit, List.drop_left, peerWords_word hwne hword hsep, addWords]
        simp only [ih hlen]

/-- `>>=` succeeds when both of its sides do. -/
theorem Start.bind_eq_ok_iff {α β : Type} {x : Start α} {f : α → Start β} {b : β} :
    (x >>= f) = .ok b ↔ ∃ a, x = .ok a ∧ f a = .ok b := by
  cases x with
  | error e => exact iff_of_false (by rintro ⟨⟩) (by rintro ⟨a, ⟨⟩, -⟩)
  | ok a =>
      constructor
      · exact fun h => ⟨a, rfl, h⟩
      · rintro ⟨_, ⟨⟩, h⟩
        exact h

theorem Start.eq_ok_of_toOption {α : Type} {r : Start α} {a : α} (h : r.toOption = some a) :
    r = .ok a := by
  cases r with
  | error e => cases h
  | ok b => exact congrArg Except.ok (Option.some.inj h)

/-- A key goes behind the others unless it is one of them. -/
theorem addServerPeerPub_eq_ok_iff {name : String} {peers peers' : ServerPeers} {k : Bytes} :
    addServerPeerPub name peers k = .ok peers' ↔
      peers'.pubs = (peers.pubs ++ [k]).eraseDups := by
  obtain ⟨pubs', nodup', le'⟩ := peers'
  rw [addServerPeerPub, List.eraseDups_concat, peers.nodup.eraseDups_eq]
  dsimp only
  by_cases hmem : k ∈ peers.pubs
  · rw [dif_pos hmem, if_pos hmem, Except.ok.injEq]
    exact ⟨fun h => by rw [h], by rintro rfl; rfl⟩
  · rw [dif_neg hmem, if_neg hmem]
    split
    · rename_i hfull
      refine iff_of_false (by rintro ⟨⟩) ?_
      rintro rfl
      rw [List.length_append, List.length_singleton] at le'
      omega
    · rw [Except.ok.injEq, ServerPeers.mk.injEq, eq_comm]

/-- A word is added when it is a key and there is room for it. -/
theorem addWords_cons_eq_ok_iff {name : String} {peers peers' : ServerPeers} {w : List Char}
    {ws : List (List Char)} : addWords name peers (w :: ws) = .ok peers' ↔
      ∃ k, wordKey? w = some k ∧ ∃ mid : ServerPeers,
        mid.pubs = (peers.pubs ++ [k]).eraseDups ∧ addWords name mid ws = .ok peers' := by
  rw [addWords, wordKey?]
  split
  · exact iff_of_false (by rintro ⟨⟩) (by rintro ⟨k, ⟨⟩, -⟩)
  · split
    · rename_i hnone
      rw [hnone]
      exact iff_of_false (by rintro ⟨⟩) (by rintro ⟨k, ⟨⟩, -⟩)
    · rename_i k hk
      rw [hk, Start.bind_eq_ok_iff]
      simp only [addServerPeerPub_eq_ok_iff, Option.some.injEq, exists_eq_left']

/-- The words are added when all of them are keys and there is room for them. -/
theorem addWords_eq_ok_iff {name : String} {peers peers' : ServerPeers}
    {ws : List (List Char)} : addWords name peers ws = .ok peers' ↔
      ∃ keys, ws.mapM wordKey? = some keys ∧
        peers'.pubs = (peers.pubs ++ keys).eraseDups := by
  induction ws generalizing peers with
  | nil =>
      obtain ⟨pubs', nodup', le'⟩ := peers'
      simp only [addWords, List.mapM_nil, Option.pure_def, Option.some.injEq, exists_eq_left',
        List.append_nil, peers.nodup.eraseDups_eq, Except.ok.injEq]
      exact ⟨fun h => by rw [h], by rintro rfl; rfl⟩
  | cons w ws ih =>
      simp only [addWords_cons_eq_ok_iff, ih, List.mapM_cons, Option.bind_eq_bind,
        Option.bind_eq_some_iff, Option.pure_def, Option.some.injEq]
      constructor
      · rintro ⟨k, hk, mid, hmid, keys, hkeys, hpubs⟩
        refine ⟨k :: keys, ⟨k, hk, keys, hkeys, rfl⟩, ?_⟩
        rw [hpubs, hmid, List.eraseDups_append_eraseDups, List.append_assoc,
          List.singleton_append]
      · rintro ⟨_, ⟨k, hk, keys, hkeys, rfl⟩, hpubs⟩
        rw [← List.singleton_append, ← List.append_assoc] at hpubs
        -- there is room for the first of them, as there is for all
        have hle : (peers.pubs ++ [k]).eraseDups.length ≤ awgMaxServerPeers := by
          have hprefix := (List.eraseDups_prefix_append (peers.pubs ++ [k]) keys).length_le
          rw [← hpubs] at hprefix
          exact hprefix.trans peers'.le
        refine ⟨k, hk, ⟨_, List.nodup_eraseDups _, hle⟩, rfl, keys, hkeys, ?_⟩
        rw [hpubs, List.eraseDups_append_eraseDups]

/-- What `add_server_peer_pub` and `parse_server_peer_list` say of the variable when they end the
start. -/
def peerComplaints : List String :=
  [": too many peers (max 256)", ": peer public key token is too long",
    ": invalid client public key in peer list"]

/-- A list that is not accepted ends the start with a line about its variable. -/
theorem addWords_error {name : String} {peers : ServerPeers} {ws : List (List Char)} {e : Halt}
    (h : addWords name peers ws = .error e) : ∃ t ∈ peerComplaints, e = .fatal [name ++ t] := by
  induction ws generalizing peers with
  | nil => cases h
  | cons w ws ih =>
      rw [addWords] at h
      split at h
      · obtain rfl := Except.error.inj h
        exact ⟨_, by simp [peerComplaints], rfl⟩
      · split at h
        · obtain rfl := Except.error.inj h
          exact ⟨_, by simp [peerComplaints], rfl⟩
        · rename_i k hk
          rw [addServerPeerPub] at h
          split at h
          · exact ih h
          · split at h
            · obtain rfl := Except.error.inj h
              exact ⟨_, by simp [peerComplaints], rfl⟩
            · exact ih h

/-- **Which lists are accepted, and what is kept of them**: each word has to be a key of fewer
than 128 characters, and the different ones have to be no more than 256 with those there before;
each of them is kept once, in the order of its first place. Every other list ends the start with
a line about its variable. -/
theorem parseServerPeerList_iff (name : String) (s : List Char) (peers : ServerPeers) :
    (∀ peers' : ServerPeers, parseServerPeerList name s.length peers s = .ok peers' ↔
      ∃ keys, (peerWords s).mapM wordKey? = some keys ∧
        peers'.pubs = (peers.pubs ++ keys).eraseDups) ∧
    ∀ e, parseServerPeerList name s.length peers s = .error e →
      ∃ t ∈ peerComplaints, e = .fatal [name ++ t] := by
  rw [parseServerPeerList_eq name le_rfl]
  exact ⟨fun _ => addWords_eq_ok_iff, fun _ => addWords_error⟩

end AwgProxy
