import MeshcoreAnalyzer.Layers
import MeshcoreAnalyzer.PayloadJSON
import MeshcoreAnalyzer.RegionTiers

namespace MeshcoreAnalyzer.ChannelKeys

open GoBytes Runes Spaces Layers Maps RegionKeys IngestorDecoder

/-! `loadChannelKeys` of cmd/ingestor/main.go. -/

/-- A Go map of names to keys: its entries, in one of the orders in which a range visits them. -/
structure KeyTable where
  entries : List (Bytes × Bytes)
  nodup : (entries.map Prod.fst).Nodup

structure Config where
  channelKeysPath : Bytes
  channelKeys : KeyTable
  hashChannels : List Bytes

/-- CHANNEL_KEYS_PATH, the path of channel-rainbow.json beside the config file, and the table that
a file holds, if it can be read and parsed. -/
structure Environment where
  keysPathVar : Bytes
  rainbowBeside : Bytes
  readTable : Bytes → Option KeyTable

def builtinChannelKeys : List (Bytes × Bytes) := [(utf8 "Public", utf8 "8b3387e9c5cdea6ac9e5edbaa115cd72")]

def deriveHashtagChannelKey (sha256 : Bytes → Bytes) (channelName : Bytes) : Bytes :=
  hexEncode ((sha256 channelName).take 16)

def keysPath (env : Environment) (cfg : Config) : Bytes :=
  if env.keysPathVar ≠ [] then env.keysPathVar
  else if cfg.channelKeysPath ≠ [] then cfg.channelKeysPath
  else env.rainbowBeside

def rainbowTable (env : Environment) (cfg : Config) : KeyTable :=
  (env.readTable (keysPath env cfg)).getD ⟨[], List.nodup_nil⟩

structure Visit (env : Environment) (cfg : Config) where
  rainbow : List (Bytes × Bytes)
  explicit : List (Bytes × Bytes)
  rainbow_perm : rainbow.Perm (rainbowTable env cfg).entries
  explicit_perm : explicit.Perm cfg.channelKeys.entries

def addDerived (sha256 : Bytes → Bytes) (channelKeys : KeyTable) (keys : GoMap Bytes Bytes) (raw : Bytes) :
    GoMap Bytes Bytes :=
  let trimmed := trimSpace raw
  if trimmed = [] then keys
  else
    let channelName := withHash trimmed
    if has (channelKeys.entries.map Prod.fst) channelName then keys
    else set keys channelName (deriveHashtagChannelKey sha256 channelName)

def addExplicit (keys : GoMap Bytes Bytes) (e : Bytes × Bytes) : GoMap Bytes Bytes :=
  let normalized := normalizeChannelName e.1
  if (keys normalized).isSome then
    if e.1 = normalized then set keys normalized e.2 else keys
  else set keys normalized e.2

def loadChannelKeys (sha256 : Bytes → Bytes) {env : Environment} {cfg : Config} (v : Visit env cfg) :
    GoMap Bytes Bytes :=
  let keys := write empty builtinChannelKeys
  let keys := write keys v.rainbow
  let keys := cfg.hashChannels.foldl (addDerived sha256 cfg.channelKeys) keys
  v.explicit.foldl addExplicit keys

/-- No other entry has a name that normalises to the same. -/
def Alone (cfg : Config) (e : Bytes × Bytes) : Prop :=
  ∀ f ∈ cfg.channelKeys.entries, normalizeChannelName f.1 = normalizeChannelName e.1 → f = e

/-- An explicit entry has the name, as it is spelled or normalised. -/
def Named (cfg : Config) (name : Bytes) : Prop :=
  ∃ e ∈ cfg.channelKeys.entries, e.1 = name ∨ normalizeChannelName e.1 = name

structure Tiered (sha256 : Bytes → Bytes) (env : Environment) (cfg : Config) : Prop where
  sameMap : ∀ v w : Visit env cfg, loadChannelKeys sha256 v = loadChannelKeys sha256 w
  alone : ∀ v : Visit env cfg, ∀ e ∈ cfg.channelKeys.entries, Alone cfg e →
    loadChannelKeys sha256 v (normalizeChannelName e.1) = some e.2
  canonical : ∀ v : Visit env cfg, ∀ e ∈ cfg.channelKeys.entries, e.1 = normalizeChannelName e.1 →
    loadChannelKeys sha256 v (normalizeChannelName e.1) = some e.2
  /-- What is derived changes nothing under the names of explicit entries. -/
  derived : ∀ (v : Visit env cfg) (w : Visit env { cfg with hashChannels := [] }) (name : Bytes), Named cfg name →
    loadChannelKeys sha256 v name = loadChannelKeys sha256 w name

def lowerPublic (env : Environment) (cfg : Config) : Bytes :=
  ((read (rainbowTable env cfg).entries (utf8 "Public")).or (read builtinChannelKeys (utf8 "Public"))).getD []

variable {sha256 : Bytes → Bytes} {env : Environment} {cfg : Config} {name : Bytes} {e : Bytes × Bytes}

theorem normalizeChannelName_cases (name : Bytes) :
    normalizeChannelName name = name ∨ normalizeChannelName name = utf8 "Public" := by
  have hpublic : [0x50, 0x75, 0x62, 0x6C, 0x69, 0x63] = utf8 "Public" := by decide
  rw [normalizeChannelName, hpublic]
  split
  · exact .inr rfl
  · exact .inl rfl

theorem normalizeChannelName_of_ne (h : e.1 ≠ normalizeChannelName e.1) :
    normalizeChannelName e.1 = utf8 "Public" :=
  (normalizeChannelName_cases e.1).resolve_left (Ne.symm h)

theorem withHash_ne_public (s : Bytes) : withHash s ≠ utf8 "Public" := by
  intro h
  have hpublic : hasPrefix 0x23 (utf8 "Public") = false := by decide
  rw [← h, hasPrefix_withHash] at hpublic
  cases hpublic

/-- The names of `hashChannels` that get a derived key. -/
def derivedNames (cfg : Config) : List Bytes :=
  cfg.hashChannels.filterMap fun raw =>
    if trimSpace raw = [] ∨ has (cfg.channelKeys.entries.map Prod.fst) (withHash (trimSpace raw)) then none
    else some (withHash (trimSpace raw))

theorem mem_derivedNames (h : name ∈ derivedNames cfg) :
    name ∉ cfg.channelKeys.entries.map Prod.fst ∧ name ≠ utf8 "Public" := by
  obtain ⟨raw, _, hraw⟩ := List.mem_filterMap.mp h
  split at hraw
  · cases hraw
  · next hnew =>
      rw [Option.some_inj] at hraw
      subst hraw
      rw [has_iff] at hnew
      exact ⟨(not_or.mp hnew).2, withHash_ne_public _⟩

theorem notMem_derivedNames (h : Named cfg name) : name ∉ derivedNames cfg := by
  intro hname
  obtain ⟨hnew, hpublic⟩ := mem_derivedNames hname
  obtain ⟨e, he, rfl | hnorm⟩ := h
  · exact hnew (List.mem_map_of_mem he)
  · rcases normalizeChannelName_cases e.1 with hsame | hsame
    · rw [← hnorm, hsame] at hnew
      exact hnew (List.mem_map_of_mem he)
    · exact hpublic (hnorm.symm.trans hsame)

theorem foldl_addDerived (m : GoMap Bytes Bytes) : cfg.hashChannels.foldl (addDerived sha256 cfg.channelKeys) m =
    write m ((derivedNames cfg).map fun n => (n, deriveHashtagChannelKey sha256 n)) := by
  rw [derivedNames]
  induction cfg.hashChannels generalizing m with
  | nil => rfl
  | cons raw names ih =>
      rw [List.foldl_cons, ih, List.filterMap_cons, addDerived]
      by_cases hempty : trimSpace raw = []
      · rw [if_pos hempty, if_pos (.inl hempty)]
      · by_cases hold : has (cfg.channelKeys.entries.map Prod.fst) (withHash (trimSpace raw)) = true
        · rw [if_neg hempty, if_pos hold, if_pos (.inr hold)]
        · rw [if_neg hempty, if_neg hold, if_neg (not_or.mpr ⟨hempty, hold⟩)]
          rfl

theorem addExplicit_eq : addExplicit = claim normalizeChannelName := by
  funext keys e
  rw [addExplicit, claim]
  cases keys (normalizeChannelName e.1) <;> rfl

def lowerTiers (sha256 : Bytes → Bytes) (env : Environment) (cfg : Config) (name : Bytes) : Option Bytes :=
  if has (derivedNames cfg) name then some (deriveHashtagChannelKey sha256 name)
  else (read (rainbowTable env cfg).entries name).or (read builtinChannelKeys name)

theorem lowerTiers_public : lowerTiers sha256 env cfg (utf8 "Public") = some (lowerPublic env cfg) := by
  have hfree : utf8 "Public" ∉ derivedNames cfg := fun h => (mem_derivedNames h).2 rfl
  rw [lowerTiers, if_neg (mt has_iff.mp hfree), lowerPublic]
  cases read (rainbowTable env cfg).entries (utf8 "Public") with
  | some k => rfl
  | none =>
      have hbuiltin : read builtinChannelKeys (utf8 "Public") = some (utf8 "8b3387e9c5cdea6ac9e5edbaa115cd72") :=
        (read_cons _).trans (if_pos rfl)
      rw [Option.none_or, hbuiltin]
      rfl

theorem loadChannelKeys_apply (v : Visit env cfg) (name : Bytes) : loadChannelKeys sha256 v name =
    (read (canonical normalizeChannelName cfg.channelKeys.entries) name).or (lowerTiers sha256 env cfg name) := by
  have hbuiltin : (builtinChannelKeys.map Prod.fst).Nodup := List.nodup_singleton _
  have hrainbow : (v.rainbow.map Prod.fst).Nodup :=
    (v.rainbow_perm.map Prod.fst).nodup_iff.mpr (rainbowTable env cfg).nodup
  have hexplicit : (v.explicit.map Prod.fst).Nodup :=
    (v.explicit_perm.map Prod.fst).nodup_iff.mpr cfg.channelKeys.nodup
  have hlower : ∀ n, cfg.hashChannels.foldl (addDerived sha256 cfg.channelKeys)
      (write (write empty builtinChannelKeys) v.rainbow) n = lowerTiers sha256 env cfg n := by
    intro n
    rw [foldl_addDerived, write_map, write_apply hrainbow, write_apply hbuiltin, empty_apply, Option.or_none,
      read_perm (rainbowTable env cfg).nodup v.rainbow_perm, lowerTiers]
    by_cases hn : n ∈ derivedNames cfg
    · rw [if_pos hn, if_pos (has_iff.mpr hn)]
    · rw [if_neg hn, if_neg (mt has_iff.mp hn)]
  rw [loadChannelKeys, addExplicit_eq, foldl_claim]
  · rw [write_apply (nodup_canonical _ hexplicit), hlower,
      read_perm (nodup_canonical _ cfg.channelKeys.nodup) (canonical_perm _ v.explicit_perm)]
  · intro e _ hne
    rw [normalizeChannelName_of_ne hne, hlower, lowerTiers_public]
    exact Option.some_ne_none _

theorem load_canonical (v : Visit env cfg) (he : e ∈ cfg.channelKeys.entries)
    (hcanon : e.1 = normalizeChannelName e.1) :
    loadChannelKeys sha256 v (normalizeChannelName e.1) = some e.2 := by
  have hread : read (canonical normalizeChannelName cfg.channelKeys.entries) e.1 = some e.2 :=
    (read_eq_some (nodup_canonical _ cfg.channelKeys.nodup)).mpr ((mem_canonical _).mpr ⟨he, hcanon⟩)
  rw [loadChannelKeys_apply, ← hcanon, hread]
  rfl

theorem load_alone (v : Visit env cfg) (halone : Alone cfg e) (hne : e.1 ≠ normalizeChannelName e.1) :
    loadChannelKeys sha256 v (normalizeChannelName e.1) = some (lowerPublic env cfg) := by
  have hpublic := normalizeChannelName_of_ne hne
  have hread : read (canonical normalizeChannelName cfg.channelKeys.entries) (utf8 "Public") = none := by
    apply read_eq_none.mpr
    intro hname
    obtain ⟨f, hf, hfname⟩ := List.mem_map.mp hname
    obtain ⟨hf, hcanon⟩ := (mem_canonical _).mp hf
    have hsame : f = e := halone f hf (by rw [← hcanon, hfname, hpublic])
    rw [hsame] at hcanon
    exact hne hcanon
  rw [loadChannelKeys_apply, hpublic, hread, Option.none_or, lowerTiers_public]

theorem load_derived (v : Visit env cfg) (w : Visit env { cfg with hashChannels := [] }) (hname : Named cfg name) :
    loadChannelKeys sha256 v name = loadChannelKeys sha256 w name := by
  rw [loadChannelKeys_apply, loadChannelKeys_apply, lowerTiers, if_neg (mt has_iff.mp (notMem_derivedNames hname))]
  rfl

/-- The tiers are respected exactly when an entry that stands alone under "Public" is spelled so,
or holds the key that is there already. -/
theorem tiered_iff (sha256 : Bytes → Bytes) (env : Environment) (cfg : Config) : Tiered sha256 env cfg ↔
    ∀ e ∈ cfg.channelKeys.entries, Alone cfg e → e.1 ≠ normalizeChannelName e.1 → e.2 = lowerPublic env cfg := by
  constructor
  · intro h e he halone hne
    have hload := h.alone ⟨_, _, .refl _, .refl _⟩ e he halone
    rw [load_alone _ halone hne, Option.some_inj] at hload
    exact hload.symm
  · intro h
    refine ⟨fun v w => ?_, fun v e he halone => ?_, fun v e he => load_canonical v he, fun v w name => load_derived v w⟩
    · funext name
      rw [loadChannelKeys_apply, loadChannelKeys_apply]
    · by_cases hcanon : e.1 = normalizeChannelName e.1
      · exact load_canonical v he hcanon
      · rw [load_alone v halone hcanon, h e he halone hcanon]

def noRainbow : Environment := { keysPathVar := [], rainbowBeside := [], readTable := fun _ => none }

def ownKey : Bytes := utf8 "00112233445566778899aabbccddeeff"

def lowerCased : Config :=
  { channelKeysPath := [], channelKeys := ⟨[(utf8 "public", ownKey)], List.nodup_singleton _⟩, hashChannels := [] }

theorem lowerCased_not_tiered : ¬ Tiered (fun _ => []) noRainbow lowerCased := by
  intro h
  have halone : Alone lowerCased (utf8 "public", ownKey) := fun f hf _ => List.mem_singleton.mp hf
  have hne : utf8 "public" ≠ normalizeChannelName (utf8 "public") := by decide
  have hload := h.alone ⟨_, _, .refl _, .refl _⟩ _ List.mem_cons_self halone
  rw [load_alone _ halone hne, Option.some_inj] at hload
  have hkey : lowerPublic noRainbow lowerCased ≠ ownKey := by decide
  exact hkey hload

end MeshcoreAnalyzer.ChannelKeys
