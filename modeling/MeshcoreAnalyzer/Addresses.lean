import MeshcoreAnalyzer.Spaces
import Mathlib.Data.List.Basic

namespace MeshcoreAnalyzer.Addresses

open GoBytes

/-! Package net of the Go library: addresses and networks. -/

/-- The form of 16 bytes, in which `ParseIP` gives every address. -/
structure IP where
  bytes : Bytes
  length_eq : bytes.length = 16
deriving DecidableEq

def IP.ofBytes (bytes : Bytes) : Option IP :=
  if h : bytes.length = 16 then some ⟨bytes, h⟩ else none

def v4InV6Prefix : Bytes := [0, 0, 0, 0, 0, 0, 0, 0, 0, 0, 0xFF, 0xFF]

/-- `To4` of an address of either length. -/
def to4 (bytes : Bytes) : Option Bytes :=
  if bytes.length = 4 then some bytes
  else if bytes.length = 16 ∧ bytes.take 12 = v4InV6Prefix then some (bytes.drop 12)
  else none

def isDigit (c : UInt8) : Bool := 0x30 ≤ c && c ≤ 0x39

def parseOctet (s : Bytes) : Option UInt8 :=
  if s = [] ∨ (1 < s.length ∧ s.head? = some 0x30) ∨ s.any (fun c => !isDigit c) then none
  else
    let val := s.foldl (fun v c => 10 * v + (c.toNat - 0x30)) 0
    if val ≤ 255 then some (UInt8.ofNat val) else none

def parseIPv4Fields (s : Bytes) : Option Bytes :=
  let fields := s.splitOn 0x2E
  if fields.length = 4 then fields.mapM parseOctet else none

/-- The groups of an IPv6 address that are left, when `ip` has been read; the ellipsis
stands at a position of `ip`. -/
def parseGroups : Nat → Bytes → Option Nat → Bytes → Option (Bytes × Option Nat)
  | 0, ip, ellipsis, s => if s = [] then some (ip, ellipsis) else none
  | room + 1, ip, ellipsis, s =>
      let digits := s.takeWhile fun c => (hexVal c).isSome
      let rest := s.drop digits.length
      if digits = [] ∨ 4 < digits.length then none
      else if rest.head? = some 0x2E then
        if (ellipsis = none ∧ ip.length ≠ 12) ∨ 16 < ip.length + 4 then none
        else do
          let fields ← parseIPv4Fields s
          return (ip ++ fields, ellipsis)
      else
        let acc := digits.foldl (fun v c => 16 * v + (hexVal c).getD 0) 0
        let ip := ip ++ [UInt8.ofNat (acc / 256), UInt8.ofNat acc]
        match rest with
        | [] => some (ip, ellipsis)
        | [_] => none
        | c :: d :: rest =>
            if c ≠ 0x3A then none
            else if d ≠ 0x3A then parseGroups room ip ellipsis (d :: rest)
            else if ellipsis.isSome then none
            else if rest = [] then some (ip, some ip.length)
            else parseGroups room ip (some ip.length) rest

def expand (ip : Bytes) : Option Nat → Option IP
  | none => IP.ofBytes ip
  | some i =>
      if ip.length = 16 then none
      else IP.ofBytes (ip.take i ++ List.replicate (16 - ip.length) 0 ++ ip.drop i)

def parseIPv6 (s : Bytes) : Option IP :=
  if s.take 2 = [0x3A, 0x3A] then
    if s.drop 2 = [] then expand [] (some 0)
    else do
      let (ip, ellipsis) ← parseGroups 8 [] (some 0) (s.drop 2)
      expand ip ellipsis
  else do
    let (ip, ellipsis) ← parseGroups 8 [] none s
    expand ip ellipsis

/-- `net.ParseIP`; an address with a zone is none. -/
def parseIP (s : Bytes) : Option IP :=
  if 0x25 ∈ s then none
  else
    match s.find? fun c => c == 0x2E || c == 0x3A with
    | some 0x2E => do
        let fields ← parseIPv4Fields s
        IP.ofBytes (v4InV6Prefix ++ fields)
    | some _ => parseIPv6 s
    | none => none

/-- `net.SplitHostPort`, the host of it. -/
def splitHost (hostport : Bytes) : Option Bytes :=
  if 0x3A ∉ hostport then none
  else
    let i := hostport.length - 1 - hostport.reverse.idxOf 0x3A
    if hostport.head? = some 0x5B then
      let close := hostport.idxOf 0x5D
      if close + 1 ≠ i ∨ 0x5B ∈ hostport.drop 1 ∨ 0x5D ∈ hostport.drop (close + 1) then none
      else some ((hostport.take close).drop 1)
    else
      let host := hostport.take i
      if 0x3A ∈ host ∨ 0x5B ∈ hostport ∨ 0x5D ∈ hostport then none else some host

def digit (n : Nat) : UInt8 := UInt8.ofNat (0x30 + n)

def appendDecimal (x : UInt8) : Bytes :=
  (if 100 ≤ x.toNat then [digit (x.toNat / 100)] else []) ++
    (if 10 ≤ x.toNat then [digit (x.toNat / 10 % 10)] else []) ++ [digit (x.toNat % 10)]

def appendHex (x : Nat) : Bytes :=
  (if 0x1000 ≤ x then [hexDigit (x / 0x1000)] else []) ++ (if 0x100 ≤ x then [hexDigit (x / 0x100 % 16)] else []) ++
    (if 0x10 ≤ x then [hexDigit (x / 0x10 % 16)] else []) ++ [hexDigit (x % 16)]

def groups : Bytes → List Nat
  | hi :: lo :: rest => (256 * hi.toNat + lo.toNat) :: groups rest
  | _ => []

def zeroRun (gs : List Nat) : Nat × Nat :=
  (List.range 8).foldl (fun run i =>
    let l := ((gs.drop i).takeWhile (· == 0)).length
    if 2 ≤ l ∧ run.2 - run.1 < l then (i, i + l) else run) (255, 255)

def join (sep : Bytes) (texts : List Bytes) : Bytes := sep.intercalate texts

def string6 (gs : List Nat) : Bytes :=
  let run := zeroRun gs
  if run.1 = 255 then join [0x3A] (gs.map appendHex)
  else join [0x3A] ((gs.take run.1).map appendHex) ++ [0x3A, 0x3A] ++ join [0x3A] ((gs.drop run.2).map appendHex)

/-- `IP.String` -/
def IP.string (ip : IP) : Bytes :=
  match to4 ip.bytes with
  | some p4 => join [0x2E] (p4.map appendDecimal)
  | none => string6 (groups ip.bytes)

theorem appendHex_ne_nil (x : Nat) : appendHex x ≠ [] := List.append_ne_nil_of_right_ne_nil _ (List.cons_ne_nil _ _)

theorem appendDecimal_ne_nil (x : UInt8) : appendDecimal x ≠ [] :=
  List.append_ne_nil_of_right_ne_nil _ (List.cons_ne_nil _ _)

theorem join_ne_nil (sep : Bytes) {texts : List Bytes} (hsome : texts ≠ []) (h : ∀ t ∈ texts, t ≠ []) :
    join sep texts ≠ [] := by
  cases texts with
  | nil => exact absurd rfl hsome
  | cons t texts =>
      have ht := h t List.mem_cons_self
      cases texts with
      | nil => simpa [join] using ht
      | cons u texts => simp [join, List.intercalate, ht]

theorem groups_ne_nil (ip : IP) : groups ip.bytes ≠ [] := by
  obtain ⟨bytes, hlen⟩ := ip
  match bytes, hlen with
  | hi :: lo :: rest, _ => exact List.cons_ne_nil _ _

theorem to4_length {bytes p4 : Bytes} (h : to4 bytes = some p4) : p4.length = 4 := by
  rw [to4] at h
  split at h
  · next h4 =>
    cases h
    exact h4
  · split at h
    · next h16 =>
      cases h
      rw [List.length_drop, h16.1]
    · cases h

theorem IP.string_ne_nil (ip : IP) : ip.string ≠ [] := by
  rw [IP.string]
  split
  · next p4 h4 =>
    have hlen := to4_length h4
    apply join_ne_nil
    · rw [Ne, List.map_eq_nil_iff]
      rintro rfl
      cases hlen
    · intro t ht
      obtain ⟨x, -, rfl⟩ := List.mem_map.mp ht
      exact appendDecimal_ne_nil x
  · rw [string6]
    split
    · apply join_ne_nil
      · rw [Ne, List.map_eq_nil_iff]
        exact groups_ne_nil ip
      · intro t ht
        obtain ⟨x, -, rfl⟩ := List.mem_map.mp ht
        exact appendHex_ne_nil x
    · simp

/-- An address of 4 or 16 bytes, and a mask. -/
structure IPNet where
  ip : Bytes
  mask : Bytes

def networkNumberAndMask (n : IPNet) : Option (Bytes × Bytes) :=
  match to4 n.ip with
  | some number =>
      if n.mask.length = 4 then some (number, n.mask)
      else if n.mask.length = 16 then some (number, n.mask.drop 12)
      else none
  | none => if n.ip.length = 16 ∧ n.mask.length = 16 then some (n.ip, n.mask) else none

def IPNet.contains (n : IPNet) (ip : IP) : Bool :=
  let bytes := (to4 ip.bytes).getD ip.bytes
  match networkNumberAndMask n with
  | some (number, mask) =>
      bytes.length == number.length && ((number.zip mask).zip bytes).all fun e => e.1.1 &&& e.1.2 == e.2 &&& e.1.2
  | none => false

def IP.isLoopback (ip : IP) : Bool :=
  match to4 ip.bytes with
  | some p4 => p4.head? == some 127
  | none => ip.bytes == List.replicate 15 0 ++ [1]

def IP.isPrivate (ip : IP) : Bool :=
  match to4 ip.bytes with
  | some p4 => p4.head? == some 10 || (p4.take 1 == [172] && (p4.drop 1).head?.any fun b => b &&& 0xF0 == 16) ||
      p4.take 2 == [192, 168]
  | none => ip.bytes.head?.any fun b => b &&& 0xFE == 0xFC

def IP.isLinkLocalUnicast (ip : IP) : Bool :=
  match to4 ip.bytes with
  | some p4 => p4.take 2 == [169, 254]
  | none => ip.bytes.head? == some 0xFE && (ip.bytes.drop 1).head?.any fun b => b &&& 0xC0 == 0x80

end MeshcoreAnalyzer.Addresses
